/-
# When the handshake loop retransmits

The loop measures the retransmission timeout from `rtx_mark`, which only an
earlier retransmission moves; flights that `wolfSSL_connect` sends in between
do not. `got_timeout_on_time`: as long as every timeout that is found due finds
no flight younger than the mark, no retransmission comes before its timeout has
passed since the last flight. The condition is what the loop would need to
know: a flight younger than the mark makes some reading and some timeout
premature (`premature_of_flight_after_mark`).
-/
import PqcDtls.Handshake

namespace PqcDtls
namespace Handshake

open Lib

/-! ### Flights and timeouts on a trace -/

/-- The last flight of a trace; `f` is the one before it. -/
def lastFlight (f : Option ℕ) : List Ev → Option ℕ
  | [] => f
  | .flight t :: tr => lastFlight (some t) tr
  | _ :: tr => lastFlight f tr

/-- At every retransmission timeout of a trace, `to` whole seconds have passed
since the last flight. -/
def OnTime (f : Option ℕ) : List Ev → Prop
  | [] => True
  | .flight t :: tr => OnTime (some t) tr
  | .gotTimeout now tmo :: tr => (∀ t ∈ f, tmo ≤ (now / 1000 : ℕ) - (t / 1000 : ℕ)) ∧ OnTime f tr
  | _ :: tr => OnTime f tr

/-- An event that is neither a flight nor a retransmission timeout. -/
def Silent : Ev → Prop
  | .flight _ => False
  | .gotTimeout _ _ => False
  | _ => True

theorem lastFlight_append : ∀ (a b : List Ev) (f : Option ℕ),
    lastFlight f (a ++ b) = lastFlight (lastFlight f a) b
  | [], _, _ => rfl
  | e :: a, b, f => by cases e <;> exact lastFlight_append a b _

theorem onTime_append : ∀ (a b : List Ev) (f : Option ℕ),
    OnTime f (a ++ b) ↔ OnTime f a ∧ OnTime (lastFlight f a) b
  | [], _, _ => by simp [OnTime, lastFlight]
  | e :: a, b, f => by
    have ih := fun f => onTime_append a b f
    cases e <;> simp [OnTime, lastFlight, ih, and_assoc]

theorem onTime_silent : ∀ (a : List Ev) (f : Option ℕ), (∀ e ∈ a, Silent e) →
    OnTime f a ∧ lastFlight f a = f
  | [], _, _ => ⟨trivial, rfl⟩
  | e :: a, f, h => by
    have he := h e (by simp)
    have ih := onTime_silent a f fun e he => h e (by simp [he])
    cases e <;> first | exact absurd he id | exact ih

theorem onTime_flights : ∀ (ts : List ℕ) (f : Option ℕ), OnTime f (ts.map .flight)
  | [], _ => trivial
  | t :: ts, _ => onTime_flights ts (some t)

theorem message_silent {s : State} {r : Round} {e : Ev} (h : Message s r e) : Silent e := by
  rcases h with rfl | ⟨p, rfl⟩ <;> trivial

/-! ### The run -/

/-- A timeout that is found due finds no flight younger than the mark. -/
def MarkFresh (s : State) : Step → Prop
  | .round r =>
    r.ret ≠ wolfsslSuccess → (r.err = wolfsslErrorWantRead ∨ r.err = wolfsslErrorWantWrite) →
    due s.rtxMark (uptimeSeconds r.now) r.tmo →
    ∀ t ∈ lastFlight none (s.trace ++ r.flights.map .flight), t / 1000 ≤ s.markAt / 1000
  | .read _ _ _ => True

instance (s : State) : (a : Step) → Decidable (MarkFresh s a)
  | .round _ => inferInstanceAs (Decidable (_ → _ → _ → _))
  | .read _ _ _ => isTrue trivial

/-- The mark is a reading of the past, and the timeouts so far came in time. -/
structure Timely (s : State) : Prop where
  mark : s.rtxMark = uptimeSeconds s.markAt
  past : s.markAt ≤ s.clock
  onTime : OnTime none s.trace

/-- The times of a wait: the reading is not before the clock. -/
theorem now_mem_times {r : Round} (h : r.ret ≠ wolfsslSuccess) : r.now ∈ r.times := by
  simp [Round.times, h]

theorem Timely.iterate {s : State} (h : Timely s) {r : Round} (hp : (s.clock :: r.times).Pairwise (· ≤ ·))
    (hm : MarkFresh s (.round r)) : Timely { iterate s r with clock := latest s.clock r.times } := by
  obtain ⟨hmark, hpast, hon⟩ := h
  have hclock : s.markAt ≤ latest s.clock r.times := hpast.trans (le_latest hp (by simp))
  have hconn : OnTime none (s.trace ++ connectEvs r) := by
    rw [connectEvs, ← List.append_assoc, onTime_append, onTime_append]
    exact ⟨⟨hon, onTime_flights _ _⟩, trivial⟩
  have hlast : lastFlight none (s.trace ++ connectEvs r) =
      lastFlight none (s.trace ++ r.flights.map .flight) := by
    rw [connectEvs, ← List.append_assoc, lastFlight_append]
    rfl
  -- the messages are silent, so what follows them sees the flights of this call
  have hadd : ∀ msgs rest, (∀ e ∈ msgs, Message s r e) →
      OnTime (lastFlight none (s.trace ++ connectEvs r)) rest →
      OnTime none (s.trace ++ (connectEvs r ++ (msgs ++ rest))) := by
    intro msgs rest hmsgs hrest
    obtain ⟨hmo, hml⟩ := onTime_silent msgs (lastFlight none (s.trace ++ connectEvs r))
      fun e hm => message_silent (hmsgs e hm)
    rw [← List.append_assoc]
    exact (onTime_append _ _ _).mpr ⟨hconn, (onTime_append _ _ _).mpr ⟨hmo, by rw [hml]; exact hrest⟩⟩
  rcases iterate_cases s r with ⟨-, he⟩ | ⟨hret, hw, msgs, le, pm, hmsgs, he⟩ | ⟨-, -, msgs, le, hmsgs, he⟩
  · rw [he]
    exact ⟨hmark, hclock, hadd [] _ (by simp) trivial⟩
  · have hnow : s.markAt ≤ r.now :=
      hpast.trans ((List.pairwise_cons.mp hp).1 _ (now_mem_times hret))
    rw [he]
    by_cases hdue : due s.rtxMark (uptimeSeconds r.now) r.tmo
    · refine ⟨by simp only [if_pos hdue], ?_, hadd msgs _ hmsgs ?_⟩
      · simp only [if_pos hdue]
        exact le_latest hp (List.mem_cons_of_mem _ (now_mem_times hret))
      · -- the timeout passed since the mark, and the last flight is not younger than the mark
        have hfresh := hm hret hw hdue
        have hdue' := hdue
        rw [hmark] at hdue'
        obtain ⟨-, hge⟩ := le_of_due hnow hdue'
        rw [hlast, timerEvs, if_pos hdue, List.cons_append, OnTime, OnTime, onTime_append]
        · refine ⟨fun t ht => ?_, onTime_flights _ _, ?_⟩
          · have := hfresh t ht
            omega
          · split_ifs <;> trivial
        all_goals simp
    · refine ⟨by simp only [if_neg hdue]; exact hmark, by simp only [if_neg hdue]; exact hclock,
        hadd msgs _ hmsgs ?_⟩
      rw [timerEvs, if_neg hdue]
      split_ifs <;> trivial
  · rw [he]
    exact ⟨hmark, hclock, hadd msgs _ hmsgs trivial⟩

/-- The application exchange leaves the mark and the timeouts alone. -/
theorem Timely.readOnce {s : State} (h : Timely s) {got err : ℤ} {time : ℕ} (ht : s.clock ≤ time) :
    Timely { readOnce s got err time with clock := time } := by
  obtain ⟨hmark, hpast, hon⟩ := h
  have hadd : ∀ evs : List Ev, (∀ e ∈ evs, Silent e) → OnTime none (s.trace ++ evs) := fun evs hs =>
    (onTime_append _ _ _).mpr ⟨hon, (onTime_silent evs _ hs).1⟩
  unfold Handshake.readOnce
  dsimp only [State.emit]
  simp only [List.append_assoc]
  split_ifs
  all_goals
    refine ⟨hmark, hpast.trans ht, hadd _ ?_⟩
    simp [Silent]

theorem Timely.step {s t : State} {a : Step} (h : Timely s) (hm : MarkFresh s a)
    (hs : step s a = some t) : Timely t := by
  cases a with
  | round r =>
    unfold Handshake.step at hs
    dsimp only at hs
    split_ifs at hs with hp
    obtain rfl := Option.some.inj hs
    exact h.iterate hp.2 hm
  | read got err time =>
    unfold Handshake.step at hs
    dsimp only at hs
    split_ifs at hs with hp
    obtain rfl := Option.some.inj hs
    exact h.readOnce hp.2

/-- **No premature retransmission, while the mark is fresh.** In every run of
the driver in which each timeout that is found due finds no flight sent at a
later second than `rtx_mark` was read, every `wolfSSL_dtls_got_timeout` comes at
least `to` whole seconds after the last flight, whoever sent it. -/
theorem got_timeout_on_time (t₀ d : ℕ) (sched : List Step) (s : State)
    (h : run step (start t₀ d) sched = some s) (hm : Meets step MarkFresh (start t₀ d) sched) :
    OnTime none s.trace := by
  have hstart : Timely (start t₀ d) := ⟨rfl, Nat.le_add_right _ _, trivial⟩
  exact (run_invariant_of_meets step (fun _ _ _ hs hok h => hs.step hok h) _ _ _ hstart hm h).onTime

/-- An iteration that waits, with flights from `wolfSSL_connect` and a timeout
of one second. -/
def waitRound (flights : List ℕ) (now : ℕ) (resent : List ℕ) : Step :=
  .round ⟨flights, -1, wolfsslErrorWantRead, now, now, now, 1, resent, 0, 0, 0⟩

/-- The first flight goes out at once and is repeated after a second. -/
theorem got_timeout_on_time_first : ∃ s,
    run step (start 0 0) [waitRound [0] 0 [], waitRound [] 1000 [1000]] = some s ∧
      Meets step MarkFresh (start 0 0) [waitRound [0] 0 [], waitRound [] 1000 [1000]] ∧
      OnTime none s.trace := by
  have hsome : (run step (start 0 0) [waitRound [0] 0 [], waitRound [] 1000 [1000]]).isSome = true := by
    decide +kernel
  obtain ⟨s, hs⟩ := Option.isSome_iff_exists.mp hsome
  have hm : Meets step MarkFresh (start 0 0) [waitRound [0] 0 [], waitRound [] 1000 [1000]] := by
    decide +kernel
  exact ⟨s, hs, hm, got_timeout_on_time 0 0 _ s hs hm⟩

/-! ### The mark is too old -/

/-- **A flight younger than the mark makes a timeout premature**: there is a
reading, not before the flight, and a timeout for which the loop retransmits
although the timeout has not passed since the flight. -/
theorem premature_of_flight_after_mark {m f : ℕ} (hlt : m / 1000 < f / 1000)
    (hnear : f / 1000 < m / 1000 + 2 ^ 31) :
    ∃ now tmo, f ≤ now ∧ due (uptimeSeconds m) (uptimeSeconds now) tmo ∧
      ¬ tmo ≤ ((now / 1000 : ℕ) : ℤ) - (f / 1000 : ℕ) := by
  have hsub : (uptimeSeconds f - uptimeSeconds m).toNat = f / 1000 - m / 1000 :=
    ofNat_sub_toNat hlt.le (by omega)
  refine ⟨f, ((f / 1000 - m / 1000 : ℕ) : ℤ), le_refl f, ⟨by omega, ?_⟩, by omega⟩
  rw [asInt, hsub, if_pos (by omega)]

/-- A handshake whose second flight takes five seconds of work: the iteration
that sends it also repeats it. -/
def slowFlight : List Step := [waitRound [0] 0 [], waitRound [5000] 5000 [5000]]

theorem slowFlight_premature :
    ¬ ∀ sched s, run step (start 0 0) sched = some s → OnTime none s.trace := by
  intro h
  have htrace : (run step (start 0 0) slowFlight).map State.trace =
      some [.flight 0, .connect (-1) 2, .connectErr 2 0 0, .reading 0, .flight 5000, .connect (-1) 2,
        .reading 5000, .gotTimeout 5000 1, .flight 5000] := by
    decide +kernel
  obtain ⟨s, hs, hst⟩ := Option.map_eq_some_iff.mp htrace
  have hon := h slowFlight s hs
  rw [hst] at hon
  have hlate := hon.1 5000 rfl
  exact absurd hlate (by decide)

end Handshake
end PqcDtls
