/-
# The handshake driver is bounded and reports the truth

What holds of every run of `PqcDtls.Handshake`, whatever wolfSSL returns and
however the clock runs, up to `2 ^ 31` seconds after the start
(`driver_bounded`). The parts: the clock variables are readings of the past
(`Clocked`), the loop stops where it should (`Stopping`), its retransmission
timeouts are spaced and few (`Spaced`), and the times it reports are true
(`Truthful`).
-/
import PqcDtls.Handshake

namespace PqcDtls
namespace Handshake

open Lib

/-! ### The clock variables -/

/-- The variables that hold a reading hold that of their time, and the times
are in order. `t₀` and `t₀ + d` are those of `t_start` and `t_start_ms`. -/
structure Clocked (t₀ d : ℕ) (s : State) : Prop where
  start : s.tStart = uptimeSeconds t₀
  startMs : s.tStartMs = uptimeMillis (t₀ + d)
  mark : s.rtxMark = uptimeSeconds s.markAt
  rd : s.phase = .reading → s.rdStart = uptimeSeconds s.rdAt ∧ t₀ ≤ s.rdAt ∧ s.rdAt ≤ s.clock
  startMark : t₀ ≤ s.markAt
  markClock : s.markAt ≤ s.clock
  startClock : t₀ + d ≤ s.clock

theorem clocked_start (t₀ d : ℕ) : Clocked t₀ d (start t₀ d) :=
  ⟨rfl, rfl, rfl, nofun, le_refl _, Nat.le_add_right _ _, le_refl _⟩

/-- The times of an iteration are not before the clock. -/
theorem clock_le_times {s : State} {r : Round} (hp : (s.clock :: r.times).Pairwise (· ≤ ·)) {t : ℕ}
    (ht : t ∈ r.times) : s.clock ≤ t := (List.pairwise_cons.mp hp).1 t ht

/-- Nor before the start. -/
theorem Clocked.start_le {t₀ d : ℕ} {s : State} (h : Clocked t₀ d s) {r : Round}
    (hp : (s.clock :: r.times).Pairwise (· ≤ ·)) {t : ℕ} (ht : t ∈ r.times) : t₀ ≤ t :=
  calc t₀ ≤ s.markAt := h.startMark
    _ ≤ s.clock := h.markClock
    _ ≤ t := clock_le_times hp ht

/-- They are as far from a wrap as the last of them. -/
theorem times_lt {s : State} {r : Round} (hp : (s.clock :: r.times).Pairwise (· ≤ ·)) {b : ℕ}
    (hb : latest s.clock r.times / 1000 < b) {t : ℕ} (ht : t ∈ r.times) : t / 1000 < b :=
  calc t / 1000 ≤ latest s.clock r.times / 1000 :=
        Nat.div_le_div_right (le_latest hp (List.mem_cons_of_mem _ ht))
    _ < b := hb

theorem mem_times_success {r : Round} (h : r.ret = wolfsslSuccess) :
    r.doneAt ∈ r.times ∧ r.rdStartAt ∈ r.times := by
  simp [Round.times, h]

theorem mem_times_error {r : Round} (h : r.ret ≠ wolfsslSuccess) :
    r.errAt ∈ r.times ∧ r.aliveAt ∈ r.times ∧ r.now ∈ r.times := by
  simp [Round.times, h]

theorem Clocked.iterate {t₀ d : ℕ} {s : State} (h : Clocked t₀ d s) {r : Round}
    (hp : (s.clock :: r.times).Pairwise (· ≤ ·)) (hc : s.phase = .connecting) :
    Clocked t₀ d { iterate s r with clock := latest s.clock r.times } := by
  have hstart : ∀ t ∈ r.times, t₀ ≤ t := fun t ht => h.start_le hp ht
  obtain ⟨h1, h2, h3, -, h5, h6, h7⟩ := h
  have hl : s.clock ≤ latest s.clock r.times := le_latest hp (by simp)
  have hmem : ∀ t ∈ r.times, t ≤ latest s.clock r.times := fun t ht =>
    le_latest hp (List.mem_cons_of_mem _ ht)
  rcases iterate_cases s r with ⟨hret, he⟩ | ⟨hret, -, msgs, le, pm, -, he⟩ | ⟨hret, -, msgs, le, -, he⟩
  · rw [he]
    have hrd := (mem_times_success hret).2
    refine ⟨h1, h2, h3, fun _ => ⟨rfl, ?_, hmem _ hrd⟩, h5, h6.trans hl, h7.trans hl⟩
    exact hstart _ hrd
  · rw [he]
    have hnow := (mem_times_error hret).2.2
    refine ⟨h1, h2, ?_, ?_, ?_, ?_, h7.trans hl⟩
    · simp only
      split_ifs
      · rfl
      · exact h3
    · intro hph
      simp only [hc] at hph
      split_ifs at hph
    · simp only
      split_ifs
      · exact hstart _ hnow
      · exact h5
    · simp only
      split_ifs
      · exact hmem _ hnow
      · exact h6.trans hl
  · rw [he]
    exact ⟨h1, h2, h3, nofun, h5, h6.trans hl, h7.trans hl⟩

/-- An iteration of the read loop adds to the trace, and goes on or cleans up. -/
theorem readOnce_cases (s : State) (got err : ℤ) (time : ℕ) :
    (got ≤ 0 ∧ err = wolfsslErrorWantRead ∧ uptimeSeconds time - s.rdStart < 10 ∧
      readOnce s got err time = { s with trace := s.trace ++ [.read got err, .checked time] }) ∨
    ∃ evs, (∀ e ∈ evs, e = .checked time ∨ e = .serverSays got ∨ e = .readError err ∨ e = .sessionDone) ∧
      readOnce s got err time =
        { s with trace := s.trace ++ (.read got err :: evs), phase := .cleanup } := by
  unfold readOnce
  simp only [State.emit, List.append_assoc, List.cons_append, List.nil_append]
  split_ifs with h1 h2 h3
  · exact Or.inr ⟨[.serverSays got, .sessionDone], by simp, rfl⟩
  · exact Or.inl ⟨by omega, h2, h3, rfl⟩
  · exact Or.inr ⟨[.checked time, .sessionDone], by simp, rfl⟩
  · exact Or.inr ⟨[.readError err, .sessionDone], by simp, rfl⟩

theorem Clocked.readOnce {t₀ d : ℕ} {s : State} (h : Clocked t₀ d s) {got err : ℤ} {time : ℕ}
    (ht : s.clock ≤ time) : Clocked t₀ d { readOnce s got err time with clock := time } := by
  obtain ⟨h1, h2, h3, h4, h5, h6, h7⟩ := h
  rcases readOnce_cases s got err time with ⟨-, -, -, he⟩ | ⟨evs, -, he⟩
  · rw [he]
    exact ⟨h1, h2, h3, fun hp => ⟨(h4 hp).1, (h4 hp).2.1, (h4 hp).2.2.trans ht⟩, h5, h6.trans ht, h7.trans ht⟩
  · rw [he]
    exact ⟨h1, h2, h3, nofun, h5, h6.trans ht, h7.trans ht⟩

/-! ### Readings and true times -/

/-- Differences of seconds are true, up to a wrap after the start. -/
theorem seconds_sub {t₀ t : ℕ} (hle : t₀ ≤ t) (hb : t / 1000 < t₀ / 1000 + 2 ^ 31) :
    (uptimeSeconds t - uptimeSeconds t₀).toNat = t / 1000 - t₀ / 1000 :=
  ofNat_sub_toNat (Nat.div_le_div_right hle) (by omega)

theorem late_iff {t₀ d : ℕ} {s : State} (h : Clocked t₀ d s) {r : Round} (hle : t₀ ≤ r.now)
    (hb : r.now / 1000 < t₀ / 1000 + 2 ^ 31) : Late s r ↔ t₀ / 1000 + 120 ≤ r.now / 1000 := by
  have hd : t₀ / 1000 ≤ r.now / 1000 := Nat.div_le_div_right hle
  rw [Late, ge_iff_le, UInt32.le_iff_toNat_le, h.start, seconds_sub hle hb]
  show 120 ≤ _ ↔ _
  omega

/-! ### Where the loop stops -/

def IsConnect : Ev → Prop
  | .connect _ _ => True
  | _ => False

def IsRead : Ev → Prop
  | .read _ _ => True
  | _ => False

/-- After these events no `wolfSSL_connect` may follow: a success, a failure
that is not a wait, and a reading 120 seconds after the start. -/
def Stops (t₀ : ℕ) : Ev → Prop
  | .connect ret err => ret = wolfsslSuccess ∨ ¬ (err = wolfsslErrorWantRead ∨ err = wolfsslErrorWantWrite)
  | .reading now => t₀ / 1000 + 120 ≤ now / 1000
  | _ => False

/-- After these no `wolfSSL_read`: an answer, a failure that is not a wait, and
a check ten seconds after the start of the exchange. -/
def ReadStops (t₁ : ℕ) : Ev → Prop
  | .read got err => got > 0 ∨ err ≠ wolfsslErrorWantRead
  | .checked time => t₁ / 1000 + 10 ≤ time / 1000
  | _ => False

/-- A connect that failed for good. -/
def Fatal : Ev → Prop
  | .connect ret err =>
    ret ≠ wolfsslSuccess ∧ ¬ (err = wolfsslErrorWantRead ∨ err = wolfsslErrorWantWrite)
  | _ => False

/-- What the loop's exits guarantee. -/
structure Stopping (t₀ : ℕ) (s : State) : Prop where
  noConnect : s.trace.Pairwise fun x y => Stops t₀ x → ¬ IsConnect y
  connecting : s.phase = .connecting → ∀ e ∈ s.trace, ¬ Stops t₀ e
  noExchange : s.phase = .connecting → ∀ e ∈ s.trace, ¬ IsRead e ∧ ∀ t₁, ¬ ReadStops t₁ e
  complete : (∃ t ms, Ev.complete t ms ∈ s.trace) ↔ ∃ err, Ev.connect wolfsslSuccess err ∈ s.trace
  wrote : (∃ n, Ev.wrote n ∈ s.trace) ↔ ∃ err, Ev.connect wolfsslSuccess err ∈ s.trace
  fatal : s.phase ≠ .cleanup → ∀ e ∈ s.trace, ¬ Fatal e
  noRead : s.trace.Pairwise fun x y => ReadStops s.rdAt x → ¬ IsRead y
  reading : s.phase = .reading → ∀ e ∈ s.trace, ¬ ReadStops s.rdAt e

theorem stopping_start (t₀ d : ℕ) : Stopping t₀ (start t₀ d) := by
  constructor <;> simp [start]

/-- What an iteration that does not succeed adds after its connect. -/
def Middle : Ev → Prop
  | .connectErr _ _ _ => True
  | .alive _ _ _ => True
  | .reading _ => True
  | .gotTimeout _ _ => True
  | .flight _ => True
  | .timedOut _ _ => True
  | .failed _ => True
  | _ => False

theorem message_middle {s : State} {r : Round} {e : Ev} (h : Message s r e) : Middle e := by
  rcases h with rfl | ⟨p, rfl⟩ <;> trivial

theorem mem_timerEvs {s : State} {r : Round} {e : Ev} (h : e ∈ timerEvs s r) :
    e = .reading r.now ∨ (due s.rtxMark (uptimeSeconds r.now) r.tmo ∧
      (e = .gotTimeout r.now r.tmo ∨ ∃ t ∈ r.resent, e = .flight t)) ∨
    (Late s r ∧ e = .timedOut r.now (uptimeSeconds r.now - s.tStart)) := by
  unfold timerEvs at h
  rcases List.mem_cons.mp h with rfl | h
  · exact Or.inl rfl
  · rcases List.mem_append.mp h with h | h
    · split_ifs at h with hd
      · refine Or.inr (Or.inl ⟨hd, ?_⟩)
        rcases List.mem_cons.mp h with rfl | h
        · exact Or.inl rfl
        · obtain ⟨t, ht, rfl⟩ := List.mem_map.mp h
          exact Or.inr ⟨t, ht, rfl⟩
      · simp at h
    · split_ifs at h with hl
      · exact Or.inr (Or.inr ⟨hl, List.mem_singleton.mp h⟩)
      · simp at h

theorem timerEvs_middle {s : State} {r : Round} {e : Ev} (h : e ∈ timerEvs s r) : Middle e := by
  rcases mem_timerEvs h with rfl | ⟨-, rfl | ⟨t, -, rfl⟩⟩ | ⟨-, rfl⟩ <;> trivial

theorem mem_connectEvs {r : Round} {e : Ev} (h : e ∈ connectEvs r) :
    (∃ t ∈ r.flights, e = .flight t) ∨ e = .connect r.ret r.err := by
  rcases List.mem_append.mp h with h | h
  · obtain ⟨t, ht, rfl⟩ := List.mem_map.mp h
    exact Or.inl ⟨t, ht, rfl⟩
  · exact Or.inr (List.mem_singleton.mp h)

/-- An iteration's connect comes before everything that could stop it. -/
theorem noConnect_append {t₀ : ℕ} {tr rest : List Ev} {r : Round}
    (htr : tr.Pairwise fun x y => Stops t₀ x → ¬ IsConnect y) (hno : ∀ e ∈ tr, ¬ Stops t₀ e)
    (hrest : ∀ e ∈ rest, ¬ IsConnect e) :
    (tr ++ (connectEvs r ++ rest)).Pairwise fun x y => Stops t₀ x → ¬ IsConnect y := by
  refine List.pairwise_append.mpr ⟨htr, List.pairwise_append.mpr ⟨?_, ?_, ?_⟩, ?_⟩
  · refine List.pairwise_append.mpr ⟨?_, List.pairwise_singleton _ _, ?_⟩
    · refine List.pairwise_of_forall_mem_list fun x hx y _ hs => ?_
      obtain ⟨t, -, rfl⟩ := List.mem_map.mp hx
      exact absurd hs id
    · intro x hx y _ hs
      obtain ⟨t, -, rfl⟩ := List.mem_map.mp hx
      exact absurd hs id
  · exact List.pairwise_of_forall_mem_list fun x _ y hy _ => hrest y hy
  · exact fun x _ y hy _ => hrest y hy
  · exact fun x hx y _ hs => absurd hs (hno x hx)

/-- A trace without reads says nothing about them. -/
theorem noRead_of_none {t₁ : ℕ} {tr : List Ev} (h : ∀ e ∈ tr, ¬ IsRead e) :
    tr.Pairwise fun x y => ReadStops t₁ x → ¬ IsRead y :=
  List.pairwise_of_forall_mem_list fun _ _ y hy _ => h y hy

/-- The events of an iteration are none of the application exchange. -/
theorem noExchange_append (r : Round) {tr rest : List Ev}
    (htr : ∀ e ∈ tr, ¬ IsRead e ∧ ∀ t₁, ¬ ReadStops t₁ e)
    (hrest : ∀ e ∈ rest, ¬ IsRead e ∧ ∀ t₁, ¬ ReadStops t₁ e) :
    ∀ e ∈ tr ++ (connectEvs r ++ rest), ¬ IsRead e ∧ ∀ t₁, ¬ ReadStops t₁ e := by
  intro e he
  rcases List.mem_append.mp he with he | he
  · exact htr e he
  · rcases List.mem_append.mp he with he | he
    · rcases mem_connectEvs he with ⟨t, -, rfl⟩ | rfl <;> exact ⟨id, fun _ => id⟩
    · exact hrest e he

theorem Middle.noExchange {e : Ev} (h : Middle e) : ¬ IsRead e ∧ ∀ t₁, ¬ ReadStops t₁ e := by
  cases e <;> first | exact absurd h id | exact ⟨id, fun _ => id⟩

theorem Middle.noConnect {e : Ev} (h : Middle e) : ¬ IsConnect e := by
  cases e <;> first | exact absurd h id | exact id

/-- An iteration without a success adds none of a given kind. -/
theorem mem_unsuccessful {tr rest : List Ev} {r : Round} (hret : r.ret ≠ wolfsslSuccess)
    (hrest : ∀ e ∈ rest, Middle e) {e : Ev}
    (he : (∃ t ms, e = .complete t ms) ∨ (∃ n, e = .wrote n) ∨ ∃ err, e = .connect wolfsslSuccess err) :
    e ∈ tr ++ (connectEvs r ++ rest) ↔ e ∈ tr := by
  refine ⟨fun hm => ?_, fun hm => List.mem_append_left _ hm⟩
  rcases List.mem_append.mp hm with hm | hm
  · exact hm
  · rcases List.mem_append.mp hm with hm | hm
    · rcases mem_connectEvs hm with ⟨t, -, rfl⟩ | rfl
      · simp at he
      · rcases he with ⟨_, _, he⟩ | ⟨_, he⟩ | ⟨err, he⟩
        · cases he
        · cases he
        · exact absurd (Ev.connect.inj he).1 hret
    · have := hrest e hm
      rcases he with ⟨_, _, rfl⟩ | ⟨_, rfl⟩ | ⟨_, rfl⟩ <;> exact absurd this id

/-- An iteration without a success adds neither a success nor what follows one. -/
theorem complete_unsuccessful (tr : List Ev) {rest : List Ev} {r : Round} (hret : r.ret ≠ wolfsslSuccess)
    (hrest : ∀ e ∈ rest, Middle e) :
    ((∃ t ms, Ev.complete t ms ∈ tr ++ (connectEvs r ++ rest)) ↔ ∃ t ms, Ev.complete t ms ∈ tr) ∧
    ((∃ n, Ev.wrote n ∈ tr ++ (connectEvs r ++ rest)) ↔ ∃ n, Ev.wrote n ∈ tr) ∧
    ((∃ err, Ev.connect wolfsslSuccess err ∈ tr ++ (connectEvs r ++ rest)) ↔
      ∃ err, Ev.connect wolfsslSuccess err ∈ tr) := by
  refine ⟨?_, ?_, ?_⟩
  · exact exists_congr fun t => exists_congr fun ms => mem_unsuccessful hret hrest (Or.inl ⟨t, ms, rfl⟩)
  · exact exists_congr fun n => mem_unsuccessful hret hrest (Or.inr (Or.inl ⟨n, rfl⟩))
  · exact exists_congr fun e => mem_unsuccessful hret hrest (Or.inr (Or.inr ⟨e, rfl⟩))

/-- The iteration that succeeds. -/
theorem Stopping.success {t₀ : ℕ} {s t : State} (h : Stopping t₀ s) (hc : s.phase = .connecting)
    {r : Round} (hret : r.ret = wolfsslSuccess) {time : ℕ} {ms : UInt32} {n : ℤ} (hp : t.phase = .reading)
    (htr : t.trace = s.trace ++ (connectEvs r ++ [.complete time ms, .wrote n])) : Stopping t₀ t := by
  have hend : ∀ e ∈ [.complete time ms, .wrote n], ¬ IsRead e ∧ ∀ t₁, ¬ ReadStops t₁ e := by
    simp [IsRead, ReadStops]
  have hno := noExchange_append r (h.noExchange hc) hend
  have hconn : Ev.connect wolfsslSuccess r.err ∈ s.trace ++ (connectEvs r ++ [.complete time ms, .wrote n]) := by
    simp [connectEvs, ← hret]
  refine ⟨?_, by rw [hp]; nofun, by rw [hp]; nofun, ?_, ?_, ?_, ?_, ?_⟩
  · rw [htr]
    exact noConnect_append h.noConnect (h.connecting hc) (by simp [IsConnect])
  · rw [htr]
    exact ⟨fun _ => ⟨_, hconn⟩, fun _ => ⟨time, ms, by simp⟩⟩
  · rw [htr]
    exact ⟨fun _ => ⟨_, hconn⟩, fun _ => ⟨n, by simp⟩⟩
  · intro _ e he
    rw [htr] at he
    rcases List.mem_append.mp he with he | he
    · exact h.fatal (by rw [hc]; nofun) e he
    · rcases List.mem_append.mp he with he | he
      · rcases mem_connectEvs he with ⟨x, -, rfl⟩ | rfl
        · exact id
        · exact fun hf => hf.1 hret
      · simp only [List.mem_cons, List.not_mem_nil, or_false] at he
        rcases he with rfl | rfl <;> exact id
  · rw [htr]
    exact noRead_of_none fun e he => (hno e he).1
  · intro _ e he
    rw [htr] at he
    exact (hno e he).2 _

/-- An iteration that does not succeed: it goes on only if nothing stops it. -/
theorem Stopping.unsuccessful {t₀ : ℕ} {s t : State} (h : Stopping t₀ s) (hc : s.phase = .connecting)
    {r : Round} (hret : r.ret ≠ wolfsslSuccess) {rest : List Ev} (hrest : ∀ e ∈ rest, Middle e)
    (htr : t.trace = s.trace ++ (connectEvs r ++ rest)) (hp : t.phase = .connecting ∨ t.phase = .cleanup)
    (hgo : t.phase = .connecting → ∀ e ∈ connectEvs r ++ rest, ¬ Stops t₀ e) : Stopping t₀ t := by
  have hno := noExchange_append r (h.noExchange hc) fun e he => (hrest e he).noExchange
  obtain ⟨e1, e2, e3⟩ := complete_unsuccessful s.trace hret hrest
  refine ⟨?_, ?_, ?_, ?_, ?_, ?_, ?_, ?_⟩
  · rw [htr]
    exact noConnect_append h.noConnect (h.connecting hc) fun e he => (hrest e he).noConnect
  · intro hph e he
    rw [htr] at he
    exact (List.mem_append.mp he).elim (h.connecting hc e) (hgo hph e)
  · intro _
    rw [htr]
    exact hno
  · rw [htr, e1, e3]
    exact h.complete
  · rw [htr, e2, e3]
    exact h.wrote
  · intro hph e he
    have hph' := hp.resolve_right hph
    rw [htr] at he
    rcases List.mem_append.mp he with he | he
    · exact h.fatal (by rw [hc]; nofun) e he
    · -- what would be fatal would have stopped the loop
      intro hf
      refine hgo hph' e he ?_
      cases e <;> first | exact absurd hf id | exact Or.inr hf.2
  · rw [htr]
    exact noRead_of_none fun e he => (hno e he).1
  · intro hph
    rcases hp with hp | hp <;> rw [hp] at hph <;> cases hph

theorem Stopping.iterate {t₀ d : ℕ} {s : State} (hk : Clocked t₀ d s) (h : Stopping t₀ s) {r : Round}
    (hp : (s.clock :: r.times).Pairwise (· ≤ ·)) (hc : s.phase = .connecting)
    (hb : latest s.clock r.times / 1000 < t₀ / 1000 + 2 ^ 31) :
    Stopping t₀ { iterate s r with clock := latest s.clock r.times } := by
  rcases iterate_cases s r with ⟨hret, he⟩ | ⟨hret, hw, msgs, le, pm, hm, he⟩ | ⟨hret, hw, msgs, le, hm, he⟩
  · exact h.success hc hret (by rw [he]) (by rw [he])
  · have hmid : ∀ e ∈ msgs ++ timerEvs s r, Middle e := fun e hm' =>
      (List.mem_append.mp hm').elim (fun h => message_middle (hm e h)) timerEvs_middle
    have hnow := (mem_times_error hret).2.2
    have hlate := late_iff hk (hk.start_le hp hnow) (times_lt hp hb hnow)
    refine h.unsuccessful hc hret hmid (by rw [he]) ?_ ?_
    · rw [he]
      simp only
      split_ifs
      · exact Or.inr rfl
      · exact Or.inl hc
    · intro hph e hmem
      rw [he] at hph
      have hnl : ¬ Late s r := by
        intro hl
        simp [hl] at hph
      rcases List.mem_append.mp hmem with hmem | hmem
      · rcases mem_connectEvs hmem with ⟨t, -, rfl⟩ | rfl
        · exact id
        · rintro (hs | hs)
          · exact hret hs
          · exact hs hw
      · rcases List.mem_append.mp hmem with hmem | hmem
        · rcases hm e hmem with rfl | ⟨p, rfl⟩ <;> exact id
        · rcases mem_timerEvs hmem with rfl | ⟨-, rfl | ⟨t, -, rfl⟩⟩ | ⟨hl, -⟩
          · exact fun hs => hnl (hlate.mpr hs)
          · exact id
          · exact id
          · exact absurd hl hnl
  · have hmid : ∀ e ∈ msgs ++ [Ev.failed r.err], Middle e := fun e hm' =>
      (List.mem_append.mp hm').elim (fun h => message_middle (hm e h)) fun h => by
        obtain rfl := List.mem_singleton.mp h
        trivial
    exact h.unsuccessful hc hret hmid (by rw [he]) (Or.inr (by rw [he])) (by rw [he]; nofun)

/-- What an iteration of the read loop adds after its read. -/
def Closing : Ev → Prop
  | .checked _ => True
  | .serverSays _ => True
  | .readError _ => True
  | .sessionDone => True
  | _ => False

/-- An iteration of the read loop: it goes on only if nothing stops it. -/
theorem Stopping.reads {t₀ : ℕ} {s t : State} (h : Stopping t₀ s) (evs : List Ev)
    (hph : s.phase = .reading) {got err : ℤ} (hevs : ∀ e ∈ evs, Closing e)
    (htr : t.trace = s.trace ++ (.read got err :: evs)) (hrd : t.rdAt = s.rdAt)
    (hp : t.phase ≠ .connecting)
    (hgo : t.phase = .reading → ∀ e ∈ Ev.read got err :: evs, ¬ ReadStops s.rdAt e) : Stopping t₀ t := by
  have hnew : ∀ e ∈ Ev.read got err :: evs, ¬ IsConnect e ∧ ¬ Fatal e ∧ (∀ a b, e ≠ .complete a b) ∧
      ∀ n, e ≠ .wrote n := by
    intro e he
    rcases List.mem_cons.mp he with rfl | he
    · exact ⟨id, id, nofun, nofun⟩
    · have := hevs e he
      cases e <;> first | exact absurd this id | exact ⟨id, id, nofun, nofun⟩
  have hmem : ∀ e : Ev, (∀ x ∈ Ev.read got err :: evs, x ≠ e) → (e ∈ t.trace ↔ e ∈ s.trace) := by
    intro e he
    rw [htr, List.mem_append]
    exact ⟨fun hm => hm.resolve_right fun hx => he e hx rfl, Or.inl⟩
  have hconn : (∃ err, Ev.connect wolfsslSuccess err ∈ t.trace) ↔
      ∃ err, Ev.connect wolfsslSuccess err ∈ s.trace :=
    exists_congr fun x => hmem _ fun e he hx => (hnew e he).1 (hx ▸ trivial)
  refine ⟨?_, fun hc => absurd hc hp, fun hc => absurd hc hp, ?_, ?_, ?_, ?_, ?_⟩
  · rw [htr]
    refine List.pairwise_append.mpr ⟨h.noConnect, ?_, fun x _ y hy _ => (hnew y hy).1⟩
    exact List.pairwise_of_forall_mem_list fun x _ y hy _ => (hnew y hy).1
  · rw [hconn, ← h.complete]
    exact exists_congr fun a => exists_congr fun b => hmem _ fun e he => (hnew e he).2.2.1 a b
  · rw [hconn, ← h.wrote]
    exact exists_congr fun n => hmem _ fun e he => (hnew e he).2.2.2 n
  · intro _ e he
    rw [htr] at he
    exact (List.mem_append.mp he).elim (h.fatal (by rw [hph]; nofun) e) fun hx => (hnew e hx).2.1
  · have hnr : ∀ e ∈ evs, ¬ IsRead e := by
      intro e he
      have := hevs e he
      cases e <;> first | exact absurd this id | exact id
    rw [htr, hrd]
    refine List.pairwise_append.mpr ⟨h.noRead, List.pairwise_cons.mpr ⟨fun y hy _ => hnr y hy,
      noRead_of_none hnr⟩, fun x hx y _ hs => absurd hs (h.reading hph x hx)⟩
  · intro hr e he
    rw [htr] at he
    rw [hrd]
    exact (List.mem_append.mp he).elim (h.reading hph e) (hgo hr e)

theorem Stopping.readOnce {t₀ d : ℕ} {s : State} (hk : Clocked t₀ d s) (h : Stopping t₀ s) {got err : ℤ}
    {time : ℕ} (ht : s.clock ≤ time) (hph : s.phase = .reading) (hb : time / 1000 < t₀ / 1000 + 2 ^ 31) :
    Stopping t₀ { readOnce s got err time with clock := time } := by
  rcases readOnce_cases s got err time with ⟨hgot, herr, hlt, he⟩ | ⟨evs, hevs, he⟩
  · refine h.reads [.checked time] hph (by simp [Closing]) (by rw [he]) (by rw [he])
      (by rw [he]; simp [hph]) ?_
    -- the check found less than ten seconds
    obtain ⟨hrd, hrd0, hrdle⟩ := hk.rd hph
    have hle : s.rdAt / 1000 ≤ time / 1000 := Nat.div_le_div_right (hrdle.trans ht)
    have hmod := ofNat_sub_toNat_mod hle
    rw [hrd, UInt32.lt_iff_toNat_lt] at hlt
    change (uptimeSeconds time - uptimeSeconds s.rdAt).toNat = _ at hmod
    rw [hmod] at hlt
    have h10 : (10 : UInt32).toNat = 10 := rfl
    intro _ e hm
    simp only [List.mem_cons, List.not_mem_nil, or_false] at hm
    rcases hm with rfl | rfl
    · rintro (hs | hs)
      · omega
      · exact hs herr
    · intro hs
      change s.rdAt / 1000 + 10 ≤ time / 1000 at hs
      have h0 : t₀ / 1000 ≤ s.rdAt / 1000 := Nat.div_le_div_right hrd0
      rw [Nat.mod_eq_of_lt (by omega)] at hlt
      omega
  · refine h.reads evs hph (fun e hm => ?_) (by rw [he]) (by rw [he]) (by rw [he]; nofun) (by rw [he]; nofun)
    rcases hevs e hm with rfl | rfl | rfl | rfl <;> trivial

/-! ### The retransmission timeouts -/

/-- The retransmission timeouts of a trace, with their readings. -/
def timeouts (tr : List Ev) : List (ℕ × ℤ) :=
  tr.filterMap fun
    | .gotTimeout now tmo => some (now, tmo)
    | _ => none

/-- A timeout `y` comes at least its own length, in seconds, after `x`. -/
def After (x y : ℕ × ℤ) : Prop := 0 < y.2 ∧ y.2 ≤ ((y.1 / 1000 : ℕ) : ℤ) - (x.1 / 1000 : ℕ)

/-- Each timeout is measured from the one before, the first from the start, and
there is at most one for each second up to the mark. -/
structure Spaced (t₀ : ℕ) (s : State) : Prop where
  chain : ((t₀, 0) :: timeouts s.trace).IsChain After
  last : ∀ x ∈ ((t₀, 0) :: timeouts s.trace).getLast?, x.1 = s.markAt
  count : (timeouts s.trace).length ≤ s.markAt / 1000 - t₀ / 1000
  young : s.phase = .connecting → s.markAt / 1000 < t₀ / 1000 + 120
  few : (timeouts s.trace).length ≤ 120

theorem spaced_start (t₀ d : ℕ) : Spaced t₀ (start t₀ d) := by
  refine ⟨List.isChain_singleton _, ?_, Nat.zero_le _, fun _ => ?_, Nat.zero_le _⟩
  · simp [start, timeouts]
  · show t₀ / 1000 < t₀ / 1000 + 120
    omega

theorem timeouts_append (a b : List Ev) : timeouts (a ++ b) = timeouts a ++ timeouts b :=
  List.filterMap_append

theorem timeouts_none : ∀ {tr : List Ev}, (∀ e ∈ tr, ∀ now tmo, e ≠ .gotTimeout now tmo) → timeouts tr = []
  | [], _ => rfl
  | e :: tr, h => by
    have ih := timeouts_none fun x hx => h x (List.mem_cons_of_mem _ hx)
    have he := h e (by simp)
    cases e with
    | gotTimeout now tmo => exact absurd rfl (he now tmo)
    | _ => exact ih

theorem timeouts_connectEvs (r : Round) : timeouts (connectEvs r) = [] := by
  refine timeouts_none fun e he => ?_
  rcases mem_connectEvs he with ⟨t, -, rfl⟩ | rfl <;> nofun

theorem timeouts_messages {s : State} {r : Round} {msgs : List Ev} (h : ∀ e ∈ msgs, Message s r e) :
    timeouts msgs = [] := by
  refine timeouts_none fun e he => ?_
  rcases h e he with rfl | ⟨p, rfl⟩ <;> nofun

theorem timeouts_timerEvs (s : State) (r : Round) : timeouts (timerEvs s r) =
    if due s.rtxMark (uptimeSeconds r.now) r.tmo then [(r.now, r.tmo)] else [] := by
  have hflights : timeouts (r.resent.map .flight) = [] := timeouts_none fun e he => by
    obtain ⟨t, -, rfl⟩ := List.mem_map.mp he
    nofun
  have hlate : timeouts (if Late s r then [Ev.timedOut r.now (uptimeSeconds r.now - s.tStart)] else []) = [] := by
    split_ifs <;> rfl
  rw [timerEvs, ← List.singleton_append, timeouts_append, timeouts_append, hlate]
  split_ifs
  · rw [List.append_nil, ← List.singleton_append (l := r.resent.map Ev.flight), timeouts_append, hflights]
    rfl
  · rfl

/-- A state with the same timeouts and mark, no longer connecting or as young. -/
theorem Spaced.congr {t₀ : ℕ} {s t : State} (h : Spaced t₀ s) (htr : timeouts t.trace = timeouts s.trace)
    (hm : t.markAt = s.markAt) (hp : t.phase = .connecting → s.phase = .connecting) : Spaced t₀ t := by
  obtain ⟨h1, h2, h3, h4, h5⟩ := h
  refine ⟨by rw [htr]; exact h1, by rw [htr, hm]; exact h2, by rw [htr, hm]; exact h3, ?_, by rw [htr]; exact h5⟩
  intro hc
  rw [hm]
  exact h4 (hp hc)

/-- One more timeout, due at `now`, moves the mark there. -/
theorem Spaced.timeout {t₀ now : ℕ} {tmo : ℤ} {s t : State} (h : Spaced t₀ s) (hstart : t₀ ≤ s.markAt)
    (hyoung : s.markAt / 1000 < t₀ / 1000 + 120) (hpos : 0 < tmo)
    (hge : tmo ≤ ((now / 1000 : ℕ) : ℤ) - (s.markAt / 1000 : ℕ))
    (htm : timeouts t.trace = timeouts s.trace ++ [(now, tmo)]) (hmark : t.markAt = now)
    (hgo : t.phase = .connecting → now / 1000 < t₀ / 1000 + 120) : Spaced t₀ t := by
  have hcount := h.count
  have hsm : t₀ / 1000 ≤ s.markAt / 1000 := Nat.div_le_div_right hstart
  refine ⟨?_, ?_, ?_, ?_, ?_⟩
  · rw [htm, ← List.cons_append]
    apply List.IsChain.append h.chain (List.isChain_singleton _)
    intro x hx y hy
    obtain rfl := Option.mem_some_iff.mp hy
    refine ⟨hpos, ?_⟩
    rw [h.last x hx]
    exact hge
  · rw [htm, hmark, ← List.cons_append, List.getLast?_concat]
    intro x hx
    obtain rfl := Option.mem_some_iff.mp hx
    rfl
  · rw [htm, hmark, List.length_append, List.length_singleton]
    omega
  · rw [hmark]
    exact hgo
  · rw [htm, List.length_append, List.length_singleton]
    omega

theorem Spaced.iterate {t₀ d : ℕ} {s : State} (hk : Clocked t₀ d s) (h : Spaced t₀ s) {r : Round}
    (hp : (s.clock :: r.times).Pairwise (· ≤ ·)) (hc : s.phase = .connecting)
    (hb : latest s.clock r.times / 1000 < t₀ / 1000 + 2 ^ 31) :
    Spaced t₀ { iterate s r with clock := latest s.clock r.times } := by
  rcases iterate_cases s r with ⟨hret, he⟩ | ⟨hret, hw, msgs, le, pm, hm, he⟩ | ⟨hret, hw, msgs, le, hm, he⟩
  · refine h.congr ?_ (by rw [he]) (fun _ => hc)
    rw [he]
    show timeouts (s.trace ++ (connectEvs r ++ _)) = _
    rw [timeouts_append, timeouts_append, timeouts_connectEvs]
    exact List.append_nil _
  · have htm : timeouts { Handshake.iterate s r with clock := latest s.clock r.times }.trace = timeouts s.trace ++
        if due s.rtxMark (uptimeSeconds r.now) r.tmo then [(r.now, r.tmo)] else [] := by
      rw [he]
      show timeouts (s.trace ++ (connectEvs r ++ (msgs ++ timerEvs s r))) = _
      rw [timeouts_append, timeouts_append, timeouts_append, timeouts_connectEvs, timeouts_messages hm,
        timeouts_timerEvs]
      rfl
    by_cases hdue : due s.rtxMark (uptimeSeconds r.now) r.tmo
    · have hnow := (mem_times_error hret).2.2
      have hmn : s.markAt ≤ r.now := hk.markClock.trans (clock_le_times hp hnow)
      have hlate := late_iff hk (hk.start_le hp hnow) (times_lt hp hb hnow)
      have hdue' := hdue
      rw [hk.mark] at hdue'
      obtain ⟨hpos, hge⟩ := le_of_due hmn hdue'
      rw [if_pos hdue] at htm
      refine h.timeout hk.startMark (h.young hc) hpos hge htm (by rw [he]; simp only [if_pos hdue]) ?_
      intro hcon
      rw [he] at hcon
      have hnl : ¬ Late s r := by
        intro hl
        simp [hl] at hcon
      have := mt hlate.mpr hnl
      omega
    · rw [if_neg hdue, List.append_nil] at htm
      exact h.congr htm (by rw [he]; simp only [if_neg hdue]) (fun _ => hc)
  · refine h.congr ?_ (by rw [he]) (fun _ => hc)
    rw [he]
    show timeouts (s.trace ++ (connectEvs r ++ (msgs ++ _))) = _
    rw [timeouts_append, timeouts_append, timeouts_append, timeouts_connectEvs, timeouts_messages hm]
    exact List.append_nil _

theorem Spaced.readOnce {t₀ : ℕ} {s : State} (h : Spaced t₀ s) {got err : ℤ} {time : ℕ} :
    Spaced t₀ { readOnce s got err time with clock := time } := by
  rcases readOnce_cases s got err time with ⟨-, -, -, he⟩ | ⟨evs, hevs, he⟩
  · refine h.congr ?_ (by rw [he]) (by rw [he]; exact id)
    rw [he, timeouts_append]
    exact List.append_nil _
  · refine h.congr ?_ (by rw [he]) (by rw [he]; nofun)
    have hnone : timeouts (Ev.read got err :: evs) = [] := timeouts_none fun e hm => by
      rcases List.mem_cons.mp hm with rfl | hm
      · nofun
      · rcases hevs e hm with rfl | rfl | rfl | rfl <;> nofun
    rw [he, timeouts_append, hnone]
    exact List.append_nil _

/-! ### The times reported -/

/-- The times in the messages: seconds since `t_start`, and the handshake time
in milliseconds, as long as these fit 32 bits. -/
def Truthful (t₀ d : ℕ) : Ev → Prop
  | .connectErr _ time t => t.toNat = time / 1000 - t₀ / 1000
  | .alive _ time t => t.toNat = time / 1000 - t₀ / 1000
  | .timedOut time t => t.toNat = time / 1000 - t₀ / 1000
  | .complete time ms => time < t₀ + d + 2 ^ 32 → ms.toNat = time - (t₀ + d)
  | _ => True

theorem truthful_iterate {t₀ d : ℕ} {s : State} (hk : Clocked t₀ d s)
    (h : ∀ e ∈ s.trace, Truthful t₀ d e) {r : Round} (hp : (s.clock :: r.times).Pairwise (· ≤ ·))
    (hb : latest s.clock r.times / 1000 < t₀ / 1000 + 2 ^ 31) :
    ∀ e ∈ (iterate s r).trace, Truthful t₀ d e := by
  have hsec : ∀ t ∈ r.times, (uptimeSeconds t - s.tStart).toNat = t / 1000 - t₀ / 1000 := by
    intro t ht
    rw [hk.start]
    exact seconds_sub (hk.start_le hp ht) (times_lt hp hb ht)
  have hconn : ∀ e ∈ connectEvs r, Truthful t₀ d e := fun e he => by
    rcases mem_connectEvs he with ⟨t, -, rfl⟩ | rfl <;> trivial
  have hmsg : r.ret ≠ wolfsslSuccess → ∀ e, Message s r e → Truthful t₀ d e := fun hret e he => by
    obtain ⟨m1, m2, -⟩ := mem_times_error hret
    rcases he with rfl | ⟨p, rfl⟩
    · exact hsec _ m1
    · exact hsec _ m2
  have hadd : ∀ rest, (∀ e ∈ rest, Truthful t₀ d e) →
      ∀ e ∈ s.trace ++ (connectEvs r ++ rest), Truthful t₀ d e := fun rest hrest e he =>
    (List.mem_append.mp he).elim (h e) fun he => (List.mem_append.mp he).elim (hconn e) (hrest e)
  rcases iterate_cases s r with ⟨hret, he⟩ | ⟨hret, hw, msgs, le, pm, hm, he⟩ | ⟨hret, hw, msgs, le, hm, he⟩
  · rw [he]
    refine hadd _ fun e hmem => ?_
    simp only [List.mem_cons, List.not_mem_nil, or_false] at hmem
    rcases hmem with rfl | rfl
    · intro hlt
      rw [hk.startMs]
      have hdone := clock_le_times hp (mem_times_success hret).1
      exact ofNat_sub_toNat (hk.startClock.trans hdone) hlt
    · trivial
  · rw [he]
    refine hadd _ fun e hmem => ?_
    rcases List.mem_append.mp hmem with hmem | hmem
    · exact hmsg hret e (hm e hmem)
    · rcases mem_timerEvs hmem with rfl | ⟨-, rfl | ⟨t, -, rfl⟩⟩ | ⟨-, rfl⟩
      · trivial
      · trivial
      · trivial
      · exact hsec _ (mem_times_error hret).2.2
  · rw [he]
    refine hadd _ fun e hmem => ?_
    rcases List.mem_append.mp hmem with hmem | hmem
    · exact hmsg hret e (hm e hmem)
    · obtain rfl := List.mem_singleton.mp hmem
      trivial

theorem truthful_readOnce {t₀ d : ℕ} {s : State} (h : ∀ e ∈ s.trace, Truthful t₀ d e) {got err : ℤ}
    {time : ℕ} : ∀ e ∈ (readOnce s got err time).trace, Truthful t₀ d e := by
  rcases readOnce_cases s got err time with ⟨-, -, -, he⟩ | ⟨evs, hevs, he⟩
  · rw [he]
    intro e hm
    rcases List.mem_append.mp hm with hm | hm
    · exact h e hm
    · simp only [List.mem_cons, List.not_mem_nil, or_false] at hm
      rcases hm with rfl | rfl <;> trivial
  · rw [he]
    intro e hm
    rcases List.mem_append.mp hm with hm | hm
    · exact h e hm
    · rcases List.mem_cons.mp hm with rfl | hm
      · trivial
      · rcases hevs e hm with rfl | rfl | rfl | rfl <;> trivial

/-! ### Every run -/

/-- Everything a run of the driver keeps. -/
structure Inv (t₀ d : ℕ) (s : State) : Prop where
  clocked : Clocked t₀ d s
  stopping : Stopping t₀ s
  spaced : Spaced t₀ s
  truthful : ∀ e ∈ s.trace, Truthful t₀ d e

theorem clock_le_step {s t : State} {a : Step} (hs : step s a = some t) : s.clock ≤ t.clock := by
  cases a with
  | round r =>
    unfold step at hs
    dsimp only at hs
    split_ifs at hs with hp
    obtain rfl := Option.some.inj hs
    exact le_latest hp.2 (by simp)
  | read got err time =>
    unfold step at hs
    dsimp only at hs
    split_ifs at hs with hp
    obtain rfl := Option.some.inj hs
    exact hp.2

theorem Inv.step {t₀ d : ℕ} {s t : State} {a : Step} (h : Inv t₀ d s) (hs : step s a = some t)
    (hb : t.clock / 1000 < t₀ / 1000 + 2 ^ 31) : Inv t₀ d t := by
  cases a with
  | round r =>
    unfold Handshake.step at hs
    dsimp only at hs
    split_ifs at hs with hp
    obtain rfl := Option.some.inj hs
    obtain ⟨hc, hp⟩ := hp
    exact ⟨h.clocked.iterate hp hc, h.stopping.iterate h.clocked hp hc hb,
      h.spaced.iterate h.clocked hp hc hb, truthful_iterate h.clocked h.truthful hp hb⟩
  | read got err time =>
    unfold Handshake.step at hs
    dsimp only at hs
    split_ifs at hs with hp
    obtain rfl := Option.some.inj hs
    exact ⟨h.clocked.readOnce hp.2, h.stopping.readOnce h.clocked hp.2 hp.1 hb,
      h.spaced.readOnce, truthful_readOnce h.truthful⟩

/-- The invariant along a run, as far as the clock stays below the bound. -/
theorem run_inv {t₀ d : ℕ} {sched : List Step} {s : State}
    (h : run Handshake.step (start t₀ d) sched = some s) (hb : s.clock / 1000 < t₀ / 1000 + 2 ^ 31) :
    Inv t₀ d s := by
  have hstart : Inv t₀ d (start t₀ d) :=
    ⟨clocked_start t₀ d, stopping_start t₀ d, spaced_start t₀ d, by simp [start]⟩
  have hinv := run_invariant Handshake.step
    (I := fun s => s.clock / 1000 < t₀ / 1000 + 2 ^ 31 → Inv t₀ d s) ?_ (fun _ => hstart) h
  · exact hinv hb
  · intro s a t hs ht hbt
    have hle : s.clock / 1000 ≤ t.clock / 1000 := Nat.div_le_div_right (clock_le_step ht)
    exact (hs (by omega)).step ht hbt

/-- Once the clock has passed the handshake timeout, an iteration is the last. -/
theorem last_iteration {t₀ d : ℕ} {s t : State} (h : Inv t₀ d s) {r : Round}
    (hlate : t₀ / 1000 + 120 ≤ s.clock / 1000) (hs : Handshake.step s (.round r) = some t)
    (hb : t.clock / 1000 < t₀ / 1000 + 2 ^ 31) : t.phase ≠ .connecting := by
  unfold Handshake.step at hs
  dsimp only at hs
  split_ifs at hs with hp
  obtain rfl := Option.some.inj hs
  rcases iterate_cases s r with ⟨-, he⟩ | ⟨hret, hw, msgs, le, pm, hm, he⟩ | ⟨-, -, msgs, le, -, he⟩
  · rw [he]; nofun
  · have hnow := (mem_times_error hret).2.2
    have hl : Late s r := by
      rw [late_iff h.clocked (h.clocked.start_le hp.2 hnow) (times_lt hp.2 hb hnow)]
      exact hlate.trans (Nat.div_le_div_right (clock_le_times hp.2 hnow))
    rw [he]
    simp only [if_pos hl]
    nofun
  · rw [he]; nofun

/-- **The handshake driver is bounded and reports the truth.** In every run,
with readings less than `2 ^ 31` seconds after `t_start`:

* the completion message, and the application message after it, are reached
  exactly when some `wolfSSL_connect` succeeded;
* no `wolfSSL_connect` follows a success, a failure other than a wait, or a
  reading at least 120 seconds after the start, a failure other than a wait
  ends in the cleanup, and past the 120 seconds an iteration is the last;
* every retransmission timeout comes at least its own length after the one
  before, the first after the start, and there are at most 120;
* every time in a message is the true time since the start, and no
  `wolfSSL_read` follows an answer, an error or a check ten seconds after the
  exchange began. -/
theorem driver_bounded (t₀ d : ℕ) (sched : List Step) (s : State)
    (h : run step (start t₀ d) sched = some s) (hb : s.clock / 1000 < t₀ / 1000 + 2 ^ 31) :
    (((∃ t ms, Ev.complete t ms ∈ s.trace) ↔ ∃ err, Ev.connect wolfsslSuccess err ∈ s.trace) ∧
      ((∃ n, Ev.wrote n ∈ s.trace) ↔ ∃ err, Ev.connect wolfsslSuccess err ∈ s.trace)) ∧
    (s.trace.Pairwise (fun x y => Stops t₀ x → ¬ IsConnect y) ∧
      ((∃ e ∈ s.trace, Fatal e) → s.phase = .cleanup) ∧
      (t₀ / 1000 + 120 ≤ s.clock / 1000 → ∀ r t, step s (.round r) = some t →
        t.clock / 1000 < t₀ / 1000 + 2 ^ 31 → t.phase ≠ .connecting)) ∧
    (((t₀, 0) :: timeouts s.trace).IsChain After ∧ (timeouts s.trace).length ≤ 120) ∧
    ((∀ e ∈ s.trace, Truthful t₀ d e) ∧
      s.trace.Pairwise (fun x y => ReadStops s.rdAt x → ¬ IsRead y)) := by
  have hi := run_inv h hb
  refine ⟨⟨hi.stopping.complete, hi.stopping.wrote⟩, ⟨hi.stopping.noConnect, ?_, ?_⟩,
    ⟨hi.spaced.chain, hi.spaced.few⟩, hi.truthful, hi.stopping.noRead⟩
  · rintro ⟨e, he, hf⟩
    by_contra hp
    exact hi.stopping.fatal hp e he hf
  · intro hlate r t ht hbt
    exact last_iteration hi hlate ht hbt

/-- A handshake with one timeout, then a success and an answer. -/
def shortRun : List Step :=
  [.round ⟨[1], -1, wolfsslErrorWantRead, 5, 5, 1500, 1, [1500], 0, 0, 0⟩,
    .round ⟨[3000], wolfsslSuccess, 0, 0, 0, 0, 0, [], 3100, 34, 3200⟩,
    .read (-1) wolfsslErrorWantRead 4000, .read 5 0 4100]

theorem driver_bounded_shortRun : ∃ s, run step (start 0 0) shortRun = some s ∧
    s.clock / 1000 < 0 / 1000 + 2 ^ 31 ∧
    s.trace = [.flight 1, .connect (-1) wolfsslErrorWantRead, .connectErr wolfsslErrorWantRead 5 0, .reading 1500,
      .gotTimeout 1500 1, .flight 1500, .flight 3000, .connect wolfsslSuccess 0, .complete 3100 3100, .wrote 34,
      .read (-1) wolfsslErrorWantRead, .checked 4000, .read 5 0, .serverSays 5, .sessionDone] ∧
    ((0, 0) :: timeouts s.trace).IsChain After ∧ (timeouts s.trace).length ≤ 120 ∧
    ∀ e ∈ s.trace, Truthful 0 0 e := by
  have hout : (run step (start 0 0) shortRun).map (fun s => (s.clock, s.trace)) =
      some (4100, [.flight 1, .connect (-1) wolfsslErrorWantRead, .connectErr wolfsslErrorWantRead 5 0,
        .reading 1500, .gotTimeout 1500 1, .flight 1500, .flight 3000, .connect wolfsslSuccess 0,
        .complete 3100 3100, .wrote 34, .read (-1) wolfsslErrorWantRead, .checked 4000, .read 5 0,
        .serverSays 5, .sessionDone]) := by decide +kernel
  obtain ⟨s, hs, hout⟩ := Option.map_eq_some_iff.mp hout
  obtain ⟨hclock, htrace⟩ := Prod.mk.inj hout
  have hb : s.clock / 1000 < 0 / 1000 + 2 ^ 31 := by rw [hclock]; decide
  obtain ⟨-, -, ⟨hchain, hfew⟩, htrue, -⟩ := driver_bounded 0 0 shortRun s hs hb
  exact ⟨s, hs, hb, htrace, hchain, hfew, htrue⟩

end Handshake
end PqcDtls
