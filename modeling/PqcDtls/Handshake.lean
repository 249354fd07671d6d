/-
# The handshake driver (`main.c`)

`main` from the first reading of the clock to the cleanup: the loop around
`wolfSSL_connect`, and the exchange of one application message after it. What
wolfSSL and the clock do in an iteration is the input (`Round`, `Step.read`):
any results, error codes, timeouts and flights sent, at any times that do not
go back. A reading of the clock is its true time, in milliseconds, taken
modulo `2 ^ 32` (`seconds_eq` is what `PqcDtls.Timer` proves of it), and what
the driver does is a trace of events.

Key definitions: `iterate`, `readOnce`, `step`. An iteration does one of three
things (`iterate_cases`).
-/
import PqcDtls.Lib.Run
import PqcDtls.Timer

namespace PqcDtls
namespace Handshake

open Lib

/-! ### The clock and the codes -/

/-- What `dtls_uptime_seconds` and `dtls_uptime_millis` return at time `t`. -/
def uptimeSeconds (t : ℕ) : UInt32 := UInt32.ofNat (t / 1000)
def uptimeMillis (t : ℕ) : UInt32 := UInt32.ofNat t

/-- The tick clock gives these readings, at the millisecond of its latch. -/
theorem seconds_eq {k : ℕ} {v : UInt32} (h : Exact k (.seconds v)) : v = uptimeSeconds (k / 1000) := by
  rw [← UInt32.toNat_inj, h, uptimeSeconds, UInt32.toNat_ofNat', Nat.div_div_eq_div_mul]

theorem millis_eq {k : ℕ} {v : UInt32} (h : Exact k (.millis v)) : v = uptimeMillis (k / 1000) := by
  rw [← UInt32.toNat_inj, h, uptimeMillis, UInt32.toNat_ofNat']

/-- `(int)x` -/
def asInt (x : UInt32) : ℤ := if x.toNat < 2 ^ 31 then x.toNat else (x.toNat : ℤ) - 2 ^ 32

/-- wolfSSL's result and error codes (`ssl.h`). -/
def wolfsslSuccess : ℤ := 1
def wolfsslErrorWantRead : ℤ := 2
def wolfsslErrorWantWrite : ℤ := 3

/-- `HANDSHAKE_TIMEOUT_S` -/
def handshakeTimeoutS : UInt32 := 120

/-! ### The state -/

/-- What the driver does, in order. Times are true times. -/
inductive Ev where
  /-- wolfSSL sends a flight. -/
  | flight (time : ℕ)
  /-- `wolfSSL_connect` returns, and what `wolfSSL_get_error` says of it. -/
  | connect (ret err : ℤ)
  /-- "[hs] connect err %d (t=%us)" -/
  | connectErr (err : ℤ) (time : ℕ) (t : UInt32)
  /-- "[hs] alive, pumps=%lu t=%us" -/
  | alive (pumps : UInt32) (time : ℕ) (t : UInt32)
  /-- `now` of an iteration -/
  | reading (now : ℕ)
  /-- `wolfSSL_dtls_got_timeout`, with `now` and `to` of its iteration -/
  | gotTimeout (now : ℕ) (tmo : ℤ)
  /-- "FAIL: handshake timed out after %u s" -/
  | timedOut (time : ℕ) (t : UInt32)
  /-- "FAIL: wolfSSL_connect error %d" -/
  | failed (err : ℤ)
  /-- "*** DTLS 1.3 HANDSHAKE COMPLETE ***", with the handshake time -/
  | complete (time : ℕ) (ms : UInt32)
  /-- `wolfSSL_write` of the application message -/
  | wrote (n : ℤ)
  /-- `wolfSSL_read` returns. -/
  | read (got err : ℤ)
  | serverSays (got : ℤ)
  | readError (err : ℤ)
  /-- The condition of the read loop is evaluated. -/
  | checked (time : ℕ)
  | sessionDone
  deriving DecidableEq

inductive Phase where
  | connecting
  | reading
  | cleanup
  deriving DecidableEq

/-- The variables of `main`, and the true times they were read at. -/
structure State where
  tStart : UInt32
  tStartMs : UInt32
  rtxMark : UInt32
  lastErr : ℤ
  pumps : UInt32
  rdStart : UInt32
  phase : Phase
  trace : List Ev
  markAt : ℕ
  rdAt : ℕ
  /-- The latest time seen. -/
  clock : ℕ

/-- The loop is entered, with `t_start` read at `t₀` and `t_start_ms` at `t₀ + d`. -/
def start (t₀ d : ℕ) : State where
  tStart := uptimeSeconds t₀
  tStartMs := uptimeMillis (t₀ + d)
  rtxMark := uptimeSeconds t₀
  lastErr := 0
  pumps := 0
  rdStart := 0
  phase := .connecting
  trace := []
  markAt := t₀
  rdAt := 0
  clock := t₀ + d

def State.emit (s : State) (evs : List Ev) : State := { s with trace := s.trace ++ evs }

/-! ### One iteration -/

/-- What wolfSSL and the clock do in an iteration. -/
structure Round where
  /-- The times at which `wolfSSL_connect` sends a flight. -/
  flights : List ℕ
  ret : ℤ
  err : ℤ
  /-- The readings of the two messages. -/
  errAt : ℕ
  aliveAt : ℕ
  now : ℕ
  /-- `to` -/
  tmo : ℤ
  /-- The times at which `wolfSSL_dtls_got_timeout`, if called, sends a flight. -/
  resent : List ℕ
  /-- After a success: the reading for the handshake time, the result of
  `wolfSSL_write` and the reading of `rd_start`. -/
  doneAt : ℕ
  wrote : ℤ
  rdStartAt : ℕ

/-- The times of an iteration, in the order of the program. -/
def Round.times (r : Round) : List ℕ :=
  if r.ret = wolfsslSuccess then r.flights ++ [r.doneAt, r.rdStartAt]
  else r.flights ++ [r.errAt, r.aliveAt, r.now] ++ r.resent

/-- `to > 0 && (int)(now - rtx_mark) >= to` -/
def due (rtxMark now : UInt32) (tmo : ℤ) : Prop := tmo > 0 ∧ asInt (now - rtxMark) ≥ tmo

instance (rtxMark now : UInt32) (tmo : ℤ) : Decidable (due rtxMark now tmo) :=
  inferInstanceAs (Decidable (_ ∧ _))

/-- A new error code is printed. -/
def noteErr (s : State) (r : Round) : State :=
  if r.err ≠ s.lastErr then
    { s.emit [.connectErr r.err r.errAt (uptimeSeconds r.errAt - s.tStart)] with lastErr := r.err }
  else s

/-- Every 20000 pumps a sign of life is printed. -/
def pump (s : State) (r : Round) : State :=
  let s := { s with pumps := s.pumps + 1 }
  if s.pumps % 20000 = 0 then s.emit [.alive s.pumps r.aliveAt (uptimeSeconds r.aliveAt - s.tStart)]
  else s

/-- The retransmission timeout. -/
def retransmit (s : State) (r : Round) : State :=
  let s := s.emit [.reading r.now]
  if due s.rtxMark (uptimeSeconds r.now) r.tmo then
    { s.emit (.gotTimeout r.now r.tmo :: r.resent.map .flight) with
      rtxMark := uptimeSeconds r.now
      markAt := r.now }
  else s

/-- The handshake timeout. -/
def giveUp (s : State) (r : Round) : State :=
  if uptimeSeconds r.now - s.tStart ≥ handshakeTimeoutS then
    { s.emit [.timedOut r.now (uptimeSeconds r.now - s.tStart)] with phase := .cleanup }
  else s

/-- The completion messages, and the start of the application exchange. -/
def exchange (s : State) (r : Round) : State :=
  { s.emit [.complete r.doneAt (uptimeMillis r.doneAt - s.tStartMs), .wrote r.wrote] with
    rdStart := uptimeSeconds r.rdStartAt
    rdAt := r.rdStartAt
    phase := .reading }

/-- One iteration of the handshake loop. -/
def iterate (s : State) (r : Round) : State :=
  let s := s.emit (r.flights.map .flight ++ [.connect r.ret r.err])
  if r.ret = wolfsslSuccess then exchange s r
  else
    let s := noteErr s r
    if r.err = wolfsslErrorWantRead ∨ r.err = wolfsslErrorWantWrite then
      giveUp (retransmit (pump s r) r) r
    else { s.emit [.failed r.err] with phase := .cleanup }

/-- One iteration of the read loop; `time` is the reading of its condition. -/
def readOnce (s : State) (got err : ℤ) (time : ℕ) : State :=
  let s := s.emit [.read got err]
  if got > 0 then { s.emit [.serverSays got, .sessionDone] with phase := .cleanup }
  else if err = wolfsslErrorWantRead then
    if uptimeSeconds time - s.rdStart < 10 then s.emit [.checked time]
    else { s.emit [.checked time, .sessionDone] with phase := .cleanup }
  else { s.emit [.readError err, .sessionDone] with phase := .cleanup }

inductive Step where
  | round (r : Round)
  | read (got err : ℤ) (time : ℕ)

/-- The latest of the times. -/
def latest (clock : ℕ) (ts : List ℕ) : ℕ := (clock :: ts).getLast (by simp)

/-- A step of the driver, for times that do not go back. -/
def step (s : State) : Step → Option State
  | .round r =>
    if s.phase = .connecting ∧ (s.clock :: r.times).Pairwise (· ≤ ·) then
      some { iterate s r with clock := latest s.clock r.times }
    else none
  | .read got err time =>
    if s.phase = .reading ∧ s.clock ≤ time then some { readOnce s got err time with clock := time }
    else none

/-! ### What an iteration does -/

/-- A message of an iteration on the way. -/
def Message (s : State) (r : Round) (e : Ev) : Prop :=
  e = .connectErr r.err r.errAt (uptimeSeconds r.errAt - s.tStart) ∨
    ∃ p, e = .alive p r.aliveAt (uptimeSeconds r.aliveAt - s.tStart)

/-- The iteration's reading is past the handshake timeout. -/
def Late (s : State) (r : Round) : Prop := uptimeSeconds r.now - s.tStart ≥ handshakeTimeoutS

instance (s : State) (r : Round) : Decidable (Late s r) := inferInstanceAs (Decidable (_ ≥ _))

/-- What `wolfSSL_connect` leaves on the trace. -/
def connectEvs (r : Round) : List Ev := r.flights.map .flight ++ [.connect r.ret r.err]

/-- What the timeouts leave on the trace. -/
def timerEvs (s : State) (r : Round) : List Ev :=
  .reading r.now ::
    ((if due s.rtxMark (uptimeSeconds r.now) r.tmo then .gotTimeout r.now r.tmo :: r.resent.map .flight
      else []) ++
    if Late s r then [.timedOut r.now (uptimeSeconds r.now - s.tStart)] else [])

theorem noteErr_eq (s : State) (r : Round) : ∃ msgs le, (∀ e ∈ msgs, Message s r e) ∧
    noteErr s r = { s with trace := s.trace ++ msgs, lastErr := le } := by
  by_cases h : r.err ≠ s.lastErr
  · refine ⟨[.connectErr r.err r.errAt (uptimeSeconds r.errAt - s.tStart)], r.err, ?_, ?_⟩
    · rintro e he
      exact Or.inl (List.mem_singleton.mp he)
    · rw [noteErr, if_pos h]; rfl
  · exact ⟨[], s.lastErr, by simp, by rw [noteErr, if_neg h, List.append_nil]⟩

theorem pump_eq (s : State) (r : Round) : ∃ msgs, (∀ e ∈ msgs, Message s r e) ∧
    pump s r = { s with trace := s.trace ++ msgs, pumps := s.pumps + 1 } := by
  by_cases h : (s.pumps + 1) % 20000 = 0
  · refine ⟨[.alive (s.pumps + 1) r.aliveAt (uptimeSeconds r.aliveAt - s.tStart)], ?_, ?_⟩
    · rintro e he
      exact Or.inr ⟨_, List.mem_singleton.mp he⟩
    · rw [pump]; simp only [h, ↓reduceIte]; rfl
  · exact ⟨[], by simp, by rw [pump]; simp only [h, ↓reduceIte, List.append_nil]⟩

theorem timers_eq (s : State) (r : Round) : giveUp (retransmit s r) r =
    { s with
      trace := s.trace ++ timerEvs s r
      rtxMark := if due s.rtxMark (uptimeSeconds r.now) r.tmo then uptimeSeconds r.now else s.rtxMark
      markAt := if due s.rtxMark (uptimeSeconds r.now) r.tmo then r.now else s.markAt
      phase := if Late s r then .cleanup else s.phase } := by
  by_cases h1 : due s.rtxMark (uptimeSeconds r.now) r.tmo <;> by_cases h2 : Late s r
  all_goals
    have h2' := h2
    unfold Late at h2'
    simp only [giveUp, retransmit, State.emit, timerEvs, h1, h2, h2', ↓reduceIte]
    simp

/-- **An iteration ends in one of three ways**: with a success and the
completion message; with a wait, its two timeouts checked; or with an error. -/
theorem iterate_cases (s : State) (r : Round) :
    (r.ret = wolfsslSuccess ∧ iterate s r =
      { s with
        trace := s.trace ++ (connectEvs r ++
          [.complete r.doneAt (uptimeMillis r.doneAt - s.tStartMs), .wrote r.wrote])
        rdStart := uptimeSeconds r.rdStartAt
        rdAt := r.rdStartAt
        phase := .reading }) ∨
    (r.ret ≠ wolfsslSuccess ∧ (r.err = wolfsslErrorWantRead ∨ r.err = wolfsslErrorWantWrite) ∧
      ∃ msgs le pm, (∀ e ∈ msgs, Message s r e) ∧ iterate s r =
        { s with
          trace := s.trace ++ (connectEvs r ++ (msgs ++ timerEvs s r))
          lastErr := le
          pumps := pm
          rtxMark := if due s.rtxMark (uptimeSeconds r.now) r.tmo then uptimeSeconds r.now else s.rtxMark
          markAt := if due s.rtxMark (uptimeSeconds r.now) r.tmo then r.now else s.markAt
          phase := if Late s r then .cleanup else s.phase }) ∨
    (r.ret ≠ wolfsslSuccess ∧ ¬ (r.err = wolfsslErrorWantRead ∨ r.err = wolfsslErrorWantWrite) ∧
      ∃ msgs le, (∀ e ∈ msgs, Message s r e) ∧ iterate s r =
        { s with
          trace := s.trace ++ (connectEvs r ++ (msgs ++ [.failed r.err]))
          lastErr := le
          phase := .cleanup }) := by
  have he : s.emit (r.flights.map .flight ++ [.connect r.ret r.err]) =
      { s with trace := s.trace ++ connectEvs r } := rfl
  by_cases hret : r.ret = wolfsslSuccess
  · refine Or.inl ⟨hret, ?_⟩
    rw [iterate, he, if_pos hret, exchange, State.emit, List.append_assoc]
  · obtain ⟨m1, le, hm1, h1⟩ := noteErr_eq { s with trace := s.trace ++ connectEvs r } r
    by_cases hw : r.err = wolfsslErrorWantRead ∨ r.err = wolfsslErrorWantWrite
    · obtain ⟨m2, hm2, h2⟩ := pump_eq
        { s with trace := s.trace ++ connectEvs r ++ m1, lastErr := le } r
      refine Or.inr (Or.inl ⟨hret, hw, m1 ++ m2, le, s.pumps + 1, ?_, ?_⟩)
      · intro e hm
        exact (List.mem_append.mp hm).elim (hm1 e) (hm2 e)
      · simp only [iterate, he]
        rw [if_neg hret, h1, if_pos hw, h2, timers_eq]
        simp only [List.append_assoc]
        rfl
    · refine Or.inr (Or.inr ⟨hret, hw, m1, le, hm1, ?_⟩)
      simp only [iterate, he]
      rw [if_neg hret, h1, if_neg hw]
      simp only [State.emit, List.append_assoc]

/-! ### Times -/

theorem le_latest {clock : ℕ} {ts : List ℕ} (h : (clock :: ts).Pairwise (· ≤ ·)) {t : ℕ}
    (ht : t ∈ clock :: ts) : t ≤ latest clock ts := by
  rw [latest]
  induction ts generalizing clock t with
  | nil => exact (List.mem_singleton.mp ht).le
  | cons a ts ih =>
    rw [List.getLast_cons (by simp)]
    have hp := List.pairwise_cons.mp h
    rcases List.mem_cons.mp ht with rfl | ht
    · exact (hp.1 a (by simp)).trans (ih hp.2 (by simp))
    · exact ih hp.2 ht

/-- A timeout that is due is due in true time: a wrap of the readings only
makes their difference smaller. -/
theorem le_of_due {m n : ℕ} (hle : m ≤ n) {tmo : ℤ} (h : due (uptimeSeconds m) (uptimeSeconds n) tmo) :
    0 < tmo ∧ tmo ≤ (n / 1000 : ℕ) - (m / 1000 : ℕ) := by
  obtain ⟨hpos, hge⟩ := h
  refine ⟨hpos, ?_⟩
  have hd : m / 1000 ≤ n / 1000 := Nat.div_le_div_right hle
  have hmod := ofNat_sub_toNat_mod hd
  have hsub := Nat.mod_le (n / 1000 - m / 1000) (2 ^ 32)
  have hlt := (uptimeSeconds n - uptimeSeconds m).toNat_lt
  unfold asInt at hge
  change (uptimeSeconds n - uptimeSeconds m).toNat = _ at hmod
  split_ifs at hge with hs <;> omega

end Handshake
end PqcDtls
