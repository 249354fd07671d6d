/-
# The tick clock (`dtls_io.c`, timer0, `CustomRngGenerateBlock`)

The firmware's clock is rebuilt from a 32-bit down-counter. `Timer` is LiteX's
counter, clock by clock: a bus write takes effect at the end of its cycle, the
latch at the end of the next. The firmware reads the latched value some cycles
later (`gap`), and so does the entropy source, in between, through the same
register.

`ticks_exact`: every call of `dtls_timer_ticks` returns the number of cycles
from the enabling of the timer to the call's own latch, as long as the samples
are less than `2 ^ 32` cycles apart. The invariant `Synced` ties
`timer_last_val` and `timer_wrap_acc` to the cycle of the last sample.
-/
import PqcDtls.Lib.Wrap

namespace PqcDtls

open Lib

/-! ### The counter (`timer.py`) -/

/-- The counter's registers. `elapsed` is not one of them: it counts the cycles
since the counter was enabled. -/
structure Timer where
  load : UInt32
  reload : UInt32
  en : Bool
  /-- `update_value` was written in the cycle before. -/
  re : Bool
  value : UInt32
  /-- The latched value, as the CPU reads it. -/
  status : UInt32
  elapsed : ℕ

/-- What the CPU writes in a cycle. -/
inductive TimerWrite where
  | none
  | en (b : Bool)
  | reload (v : UInt32)
  | load (v : UInt32)
  | updateValue

namespace Timer

/-- One clock cycle. -/
def clock (t : Timer) (w : TimerWrite) : Timer where
  load := match w with | .load v => v | _ => t.load
  reload := match w with | .reload v => v | _ => t.reload
  en := match w with | .en b => b | _ => t.en
  re := match w with | .updateValue => true | _ => false
  value := if t.en then (if t.value = 0 then t.reload else t.value - 1) else t.load
  status := if t.re then t.value else t.status
  elapsed := if t.en then t.elapsed + 1 else 0

/-- `n` cycles without a write. -/
def idle (t : Timer) : ℕ → Timer
  | 0 => t
  | n + 1 => (t.idle n).clock .none

/-- `update_value_write(1)`, and `gap + 1` cycles until the read of the value. -/
def latch (t : Timer) (gap : ℕ) : Timer := (t.clock .updateValue).idle (gap + 1)

/-- The counter runs down from the all-ones value it was loaded with. -/
structure Free (t : Timer) : Prop where
  en : t.en = true
  reload : t.reload = 0xffffffff
  value : t.value.toNat = 2 ^ 32 - 1 - t.elapsed % 2 ^ 32

end Timer

/-! ### The firmware -/

/-- `CONFIG_CLOCK_FREQUENCY` -/
def clockFrequency : UInt64 := 1000000

/-- The static variables behind the clock and the entropy source. -/
structure Clock where
  timer : Timer
  timerLastVal : UInt32
  timerWrapAcc : UInt64
  /-- `s` of `CustomRngGenerateBlock` -/
  seed : UInt32

namespace Clock

/-- `dtls_timer_init`, with the cycles between its accesses. -/
def dtlsTimerInit (c : Clock) (gap₁ gap₂ gap₃ gap₄ gap₅ : ℕ) : Clock :=
  let t := (c.timer.clock (.en false)).idle gap₁
  let t := (t.clock (.reload 0xffffffff)).idle gap₂
  let t := (t.clock (.load 0xffffffff)).idle gap₃
  let t := (t.clock (.en true)).idle gap₄
  let t := t.latch gap₅
  { c with timer := t, timerLastVal := t.status, timerWrapAcc := 0 }

def dtlsTimerTicks (c : Clock) (gap : ℕ) : Clock × UInt64 :=
  let t := c.timer.latch gap
  let v := t.status
  let acc := if v > c.timerLastVal then c.timerWrapAcc + 0x100000000 else c.timerWrapAcc
  ({ c with timer := t, timerLastVal := v, timerWrapAcc := acc }, acc + (0xffffffff - v).toUInt64)

def dtlsUptimeSeconds (c : Clock) (gap : ℕ) : Clock × UInt32 :=
  ((c.dtlsTimerTicks gap).1, ((c.dtlsTimerTicks gap).2 / clockFrequency).toUInt32)

def dtlsUptimeMillis (c : Clock) (gap : ℕ) : Clock × UInt32 :=
  ((c.dtlsTimerTicks gap).1, ((c.dtlsTimerTicks gap).2 / (clockFrequency / 1000)).toUInt32)

def lowResTimer (c : Clock) (gap : ℕ) : Clock × UInt32 := c.dtlsUptimeSeconds gap

/-- `CustomRngGenerateBlock`, with a gap for each byte it makes. -/
def customRngGenerateBlock (c : Clock) : List ℕ → Clock × List UInt8
  | [] => (c, [])
  | gap :: gaps =>
    let t := c.timer.latch gap
    let s := (c.seed ^^^ t.status) * 1664525 + 1013904223
    let r := customRngGenerateBlock { c with timer := t, seed := s } gaps
    (r.1, (s >>> 24).toUInt8 :: r.2)

end Clock

/-! ### Runs -/

/-- What the firmware does with the clock. -/
inductive ClockOp where
  /-- A cycle of other work. -/
  | work
  | ticks (gap : ℕ)
  | seconds (gap : ℕ)
  | millis (gap : ℕ)
  | lowRes (gap : ℕ)
  | rng (gaps : List ℕ)

/-- What a call returned. -/
inductive Reading where
  | ticks (v : UInt64)
  | seconds (v : UInt32)
  | millis (v : UInt32)
deriving DecidableEq

/-- The unit a reading counts in. -/
inductive Scale where
  | ticks
  | seconds
  | millis
deriving DecidableEq

def Reading.scale : Reading → Scale
  | .ticks _ => .ticks
  | .seconds _ => .seconds
  | .millis _ => .millis

/-- What a call is asked for; other work and random blocks return no time. -/
def ClockOp.scale : ClockOp → Option Scale
  | .work | .rng _ => none
  | .ticks _ => some .ticks
  | .seconds _ | .lowRes _ => some .seconds
  | .millis _ => some .millis

/-- A run's state: the clock, and each reading with the cycle of its latch. -/
structure ClockRun where
  clock : Clock
  readings : List (ℕ × Reading)

namespace ClockRun

/-- The cycle in which a latch asked for now is taken. -/
def latchCycle (r : ClockRun) : ℕ := (r.clock.timer.clock .updateValue).elapsed

def step (r : ClockRun) : ClockOp → ClockRun
  | .work => { r with clock := { r.clock with timer := r.clock.timer.clock .none } }
  | .ticks gap =>
    let c := r.clock.dtlsTimerTicks gap
    { clock := c.1, readings := r.readings ++ [(r.latchCycle, .ticks c.2)] }
  | .seconds gap =>
    let c := r.clock.dtlsUptimeSeconds gap
    { clock := c.1, readings := r.readings ++ [(r.latchCycle, .seconds c.2)] }
  | .millis gap =>
    let c := r.clock.dtlsUptimeMillis gap
    { clock := c.1, readings := r.readings ++ [(r.latchCycle, .millis c.2)] }
  | .lowRes gap =>
    let c := r.clock.lowResTimer gap
    { clock := c.1, readings := r.readings ++ [(r.latchCycle, .seconds c.2)] }
  | .rng gaps => { r with clock := (r.clock.customRngGenerateBlock gaps).1 }

def steps (r : ClockRun) (ops : List ClockOp) : ClockRun := ops.foldl step r

/-- The cycles of the samples so far, from the enabling on. -/
def samples (r : ClockRun) : List ℕ := 0 :: r.readings.map Prod.fst

end ClockRun

/-! ### The counter counts -/

namespace Timer

theorem Free.clock {t : Timer} (h : t.Free) {w : TimerWrite} (hw : w = .none ∨ w = .updateValue) :
    (t.clock w).Free ∧ (t.clock w).elapsed = t.elapsed + 1 := by
  have hv := h.value
  have hen : (t.clock w).en = true := by rcases hw with rfl | rfl <;> exact h.en
  have hre : (t.clock w).reload = 0xffffffff := by rcases hw with rfl | rfl <;> exact h.reload
  have hel : (t.clock w).elapsed = t.elapsed + 1 := by simp [Timer.clock, h.en]
  refine ⟨⟨hen, hre, ?_⟩, hel⟩
  rw [hel]
  simp only [Timer.clock, h.en, h.reload, ↓reduceIte]
  by_cases h0 : t.value = 0
  · -- the counter shows 0, so the next cycle is a multiple of `2 ^ 32`
    rw [if_pos h0]
    rw [h0] at hv
    have : (0xffffffff : UInt32).toNat = 2 ^ 32 - 1 := rfl
    have : (0 : UInt32).toNat = 0 := rfl
    omega
  · rw [if_neg h0]
    have hpos : t.value.toNat ≠ 0 := fun hc => h0 (UInt32.toNat_inj.mp hc)
    have hle : (1 : UInt32) ≤ t.value := by
      rw [UInt32.le_iff_toNat_le]
      show 1 ≤ t.value.toNat
      omega
    rw [UInt32.toNat_sub_of_le _ _ hle]
    show t.value.toNat - 1 = _
    omega

theorem Free.idle {t : Timer} (h : t.Free) : ∀ n, (t.idle n).Free ∧ (t.idle n).elapsed = t.elapsed + n
  | 0 => ⟨h, rfl⟩
  | n + 1 => by
    obtain ⟨hf, he⟩ := Free.idle h n
    obtain ⟨hf', he'⟩ := hf.clock (w := .none) (Or.inl rfl)
    exact ⟨hf', by rw [Timer.idle, he', he, Nat.add_assoc]⟩

/-- The latched value stays until the next write. -/
theorem status_idle {t : Timer} (h : t.re = false) : ∀ n,
    (t.idle n).re = false ∧ (t.idle n).status = t.status
  | 0 => ⟨h, rfl⟩
  | n + 1 => by
    obtain ⟨hr, hs⟩ := status_idle h n
    refine ⟨rfl, ?_⟩
    show (if (t.idle n).re then (t.idle n).value else (t.idle n).status) = t.status
    rw [hr]
    exact hs

theorem idle_add (t : Timer) (n : ℕ) : ∀ k, t.idle (n + k) = (t.idle n).idle k
  | 0 => rfl
  | k + 1 => by rw [← Nat.add_assoc, Timer.idle, idle_add t n k, Timer.idle]

/-- A latch shows the count of the cycle after the write, whenever it is read. -/
theorem Free.latch {t : Timer} (h : t.Free) (gap : ℕ) :
    (t.latch gap).Free ∧ (t.latch gap).elapsed = t.elapsed + 1 + (gap + 1) ∧
      (t.latch gap).status.toNat = 2 ^ 32 - 1 - (t.elapsed + 1) % 2 ^ 32 := by
  obtain ⟨hf, he⟩ := h.clock (w := .updateValue) (Or.inr rfl)
  obtain ⟨hf', he'⟩ := hf.idle (gap + 1)
  refine ⟨hf', by rw [Timer.latch, he', he], ?_⟩
  have hs : (t.latch gap).status = (t.clock .updateValue).value := by
    rw [Timer.latch, Nat.add_comm gap 1, idle_add]
    exact (status_idle (t := ((t.clock .updateValue).idle 1)) rfl gap).2
  rw [hs, hf.value, he]

end Timer

/-! ### The firmware follows -/

/-- The static variables tell the cycle of the last sample, `k`. -/
structure Synced (c : Clock) (k : ℕ) : Prop where
  free : c.timer.Free
  le : k ≤ c.timer.elapsed
  last : c.timerLastVal.toNat = 2 ^ 32 - 1 - k % 2 ^ 32
  acc : c.timerWrapAcc.toNat = 2 ^ 32 * (k / 2 ^ 32) % 2 ^ 64

/-- Idle cycles keep the registers the CPU writes. -/
theorem Timer.idle_keeps (t : Timer) : ∀ n, (t.idle n).en = t.en ∧ (t.idle n).reload = t.reload ∧
    (t.idle n).load = t.load
  | 0 => ⟨rfl, rfl, rfl⟩
  | n + 1 => Timer.idle_keeps t n

/-- The cycle of the write of `en` still loads the counter. -/
theorem Timer.free_enable {t : Timer} (hen : t.en = false) (hre : t.reload = 0xffffffff)
    (hlo : t.load = 0xffffffff) : (t.clock (.en true)).Free := by
  refine ⟨rfl, hre, ?_⟩
  simp only [Timer.clock, hen, hlo, Bool.false_eq_true, ↓reduceIte]
  rfl

/-- The set-up ends with a latch of the running counter. -/
theorem dtlsTimerInit_runs (c : Clock) (g₁ g₂ g₃ g₄ g₅ : ℕ) :
    ∃ t : Timer, t.Free ∧ c.dtlsTimerInit g₁ g₂ g₃ g₄ g₅ =
      { c with timer := t.latch g₅, timerLastVal := (t.latch g₅).status, timerWrapAcc := 0 } := by
  have h1 := (c.timer.clock (.en false)).idle_keeps g₁
  have h2 := (((c.timer.clock (.en false)).idle g₁).clock (.reload 0xffffffff)).idle_keeps g₂
  have h3 := (((((c.timer.clock (.en false)).idle g₁).clock (.reload 0xffffffff)).idle g₂).clock
    (.load 0xffffffff)).idle_keeps g₃
  have hf := Timer.free_enable (h3.1.trans (h2.1.trans h1.1)) (h3.2.1.trans h2.2.1) h3.2.2
  exact ⟨_, (hf.idle g₄).1, rfl⟩

/-- After the set-up the clock is in step. The sample taken there counts modulo
`2 ^ 32` only, since it is not compared with an earlier one. -/
theorem synced_dtlsTimerInit (c : Clock) (g₁ g₂ g₃ g₄ g₅ : ℕ) :
    ∃ k, Synced (c.dtlsTimerInit g₁ g₂ g₃ g₄ g₅) k := by
  obtain ⟨t, hfree, ht⟩ := dtlsTimerInit_runs c g₁ g₂ g₃ g₄ g₅
  obtain ⟨hf, he, hs⟩ := hfree.latch g₅
  rw [ht]
  refine ⟨(t.elapsed + 1) % 2 ^ 32, hf, ?_, ?_, ?_⟩
  · show (t.elapsed + 1) % 2 ^ 32 ≤ (t.latch g₅).elapsed
    have := Nat.mod_le (t.elapsed + 1) (2 ^ 32)
    omega
  · rw [Nat.mod_mod]
    exact hs
  · rw [Nat.div_eq_of_lt (Nat.mod_lt _ (by decide))]
    rfl

/-- **A sample is exact.** Less than `2 ^ 32` cycles after the last one, the
sum of the wraps and the counter is the cycle of the latch. -/
theorem Synced.ticks {c : Clock} {k : ℕ} (h : Synced c k) (gap : ℕ)
    (hlt : c.timer.elapsed + 1 < k + 2 ^ 32) :
    Synced (c.dtlsTimerTicks gap).1 (c.timer.elapsed + 1) ∧
      (c.dtlsTimerTicks gap).2.toNat = (c.timer.elapsed + 1) % 2 ^ 64 := by
  obtain ⟨hfree, hle, hlast, hacc⟩ := h
  obtain ⟨hf, he, hs⟩ := hfree.latch gap
  set k' := c.timer.elapsed + 1 with hk'
  set t := c.timer.latch gap with ht
  set acc := if t.status > c.timerLastVal then c.timerWrapAcc + 0x100000000 else c.timerWrapAcc with hacc'
  have hwrap := wrap_div (M := 2 ^ 32) (j := k) (k := k') (by omega) (by omega)
  have haccv : acc.toNat = 2 ^ 32 * (k' / 2 ^ 32) % 2 ^ 64 := by
    have hcond : t.status > c.timerLastVal ↔ k' % 2 ^ 32 < k % 2 ^ 32 := by
      rw [gt_iff_lt, UInt32.lt_iff_toNat_lt, hs, hlast]
      omega
    rw [hacc', hwrap]
    by_cases hw : k' % 2 ^ 32 < k % 2 ^ 32
    · rw [if_pos (hcond.mpr hw), if_pos hw, UInt64.toNat_add, hacc]
      show (2 ^ 32 * (k / 2 ^ 32) % 2 ^ 64 + 0x100000000) % 2 ^ 64 = _
      omega
    · rw [if_neg (mt hcond.mp hw), if_neg hw, hacc]
  refine ⟨⟨hf, ?_, hs, haccv⟩, ?_⟩
  · show k' ≤ t.elapsed
    omega
  · show (acc + (0xffffffff - t.status).toUInt64).toNat = k' % 2 ^ 64
    have hsub : (0xffffffff - t.status).toNat = k' % 2 ^ 32 := by
      rw [UInt32.toNat_sub_of_le]
      · show 0xffffffff - t.status.toNat = k' % 2 ^ 32
        omega
      · rw [UInt32.le_iff_toNat_le, hs]
        show _ ≤ 0xffffffff
        omega
    rw [UInt64.toNat_add, UInt32.toNat_toUInt64, hsub, haccv]
    omega

/-- The entropy source uses the same latch and leaves the clock alone. -/
theorem Synced.rng : ∀ (gaps : List ℕ) {c : Clock} {k : ℕ}, Synced c k →
    Synced (c.customRngGenerateBlock gaps).1 k ∧
      c.timer.elapsed ≤ (c.customRngGenerateBlock gaps).1.timer.elapsed
  | [], _, _, h => ⟨h, le_refl _⟩
  | gap :: gaps, c, k, h => by
    obtain ⟨hf, he, -⟩ := h.free.latch gap
    have h' : Synced { c with
        timer := c.timer.latch gap
        seed := (c.seed ^^^ (c.timer.latch gap).status) * 1664525 + 1013904223 } k :=
      ⟨hf, by have := h.le; show k ≤ (c.timer.latch gap).elapsed; omega, h.last, h.acc⟩
    obtain ⟨h1, h2⟩ := Synced.rng gaps h'
    refine ⟨h1, ?_⟩
    have h3 : (c.timer.latch gap).elapsed ≤ _ := h2
    exact le_trans (by omega) h3

/-! ### Every run -/

/-- What a reading has to be, for a latch in cycle `k`. -/
def Exact (k : ℕ) : Reading → Prop
  | .ticks v => v.toNat = k
  | .seconds v => v.toNat = k / 1000000 % 2 ^ 32
  | .millis v => v.toNat = k / 1000 % 2 ^ 32

/-- What two readings tell of the cycles `k`, `k'` of their latches: the ticks
do not fall, and differences of seconds and of milliseconds are true. -/
def Tells (k k' : ℕ) : Reading → Reading → Prop
  | .ticks v, .ticks w => v ≤ w
  | .seconds v, .seconds w => k' / 1000000 - k / 1000000 < 2 ^ 32 →
      (w - v).toNat = k' / 1000000 - k / 1000000
  | .millis v, .millis w => k' / 1000 - k / 1000 < 2 ^ 32 → (w - v).toNat = k' / 1000 - k / 1000
  | _, _ => True

namespace ClockRun

/-- The readings as a sample and a function of it. -/
def sample (r : ClockRun) (gap : ℕ) (f : UInt64 → Reading) : ClockRun where
  clock := (r.clock.dtlsTimerTicks gap).1
  readings := r.readings ++ [(r.latchCycle, f (r.clock.dtlsTimerTicks gap).2)]

/-- The readings that are functions of the ticks. -/
def Faithful (f : UInt64 → Reading) : Prop := ∀ k v, k < 2 ^ 64 → v.toNat = k → Exact k (f v)

theorem faithful_ticks : Faithful .ticks := fun _ _ _ h => h

theorem faithful_seconds : Faithful fun v => .seconds (v / clockFrequency).toUInt32 := by
  rintro k v hk rfl
  rw [Exact, UInt64.toNat_toUInt32, UInt64.toNat_div]
  rfl

theorem faithful_millis : Faithful fun v => .millis (v / (clockFrequency / 1000)).toUInt32 := by
  rintro k v hk rfl
  rw [Exact, UInt64.toNat_toUInt32, UInt64.toNat_div]
  rfl

/-- A step works, makes entropy, or takes a sample. -/
theorem step_cases (r : ClockRun) (op : ClockOp) :
    r.step op = { r with clock := { r.clock with timer := r.clock.timer.clock .none } } ∨
    (∃ gaps, r.step op = { r with clock := (r.clock.customRngGenerateBlock gaps).1 }) ∨
    ∃ gap f, Faithful f ∧ r.step op = r.sample gap f := by
  cases op with
  | work => exact Or.inl rfl
  | rng gaps => exact Or.inr (Or.inl ⟨gaps, rfl⟩)
  | ticks gap => exact Or.inr (Or.inr ⟨gap, _, faithful_ticks, rfl⟩)
  | seconds gap => exact Or.inr (Or.inr ⟨gap, _, faithful_seconds, rfl⟩)
  | millis gap => exact Or.inr (Or.inr ⟨gap, _, faithful_millis, rfl⟩)
  | lowRes gap => exact Or.inr (Or.inr ⟨gap, _, faithful_seconds, rfl⟩)

/-- The clock is in step with the last sample, and the readings so far were exact. -/
structure Inv (r : ClockRun) : Prop where
  synced : ∃ k, Synced r.clock k ∧ ∀ x ∈ r.samples.getLast?, x ≤ k
  exact : ∀ x ∈ r.readings, x.1 < 2 ^ 64 → Exact x.1 x.2
  past : ∀ x ∈ r.readings, x.1 ≤ r.clock.timer.elapsed
  sorted : r.readings.Pairwise fun x y => x.1 ≤ y.1

/-- Consecutive samples are less than a wrap apart. -/
def Dense (r : ClockRun) : Prop := r.samples.IsChain fun a b => b < a + 2 ^ 32

theorem samples_sample (r : ClockRun) (gap : ℕ) (f : UInt64 → Reading) :
    (r.sample gap f).samples = r.samples ++ [r.latchCycle] := by
  simp [samples, sample]

theorem Inv.sample {r : ClockRun} (h : r.Inv) {gap : ℕ} {f : UInt64 → Reading} (hf : Faithful f)
    (hd : (r.sample gap f).Dense) : (r.sample gap f).Inv := by
  obtain ⟨⟨k, hs, hk⟩, hexact, hpast, hsorted⟩ := h
  have hcycle : r.latchCycle = r.clock.timer.elapsed + 1 :=
    (hs.free.clock (w := .updateValue) (Or.inr rfl)).2
  obtain ⟨last, hlast⟩ : ∃ x, x ∈ r.samples.getLast? := by
    rw [samples, List.getLast?_cons]
    exact ⟨_, rfl⟩
  have hnear : r.clock.timer.elapsed + 1 < last + 2 ^ 32 := by
    rw [Dense, samples_sample, List.isChain_append] at hd
    have := hd.2.2 last hlast r.latchCycle rfl
    omega
  have hle := hk last hlast
  obtain ⟨hs', hv⟩ := hs.ticks gap (by omega)
  refine ⟨⟨_, hs', ?_⟩, ?_, ?_, ?_⟩
  · intro x hx
    rw [samples_sample, List.getLast?_concat, Option.mem_some_iff] at hx
    omega
  · intro x hx hx64
    rcases List.mem_append.mp hx with hx | hx
    · exact hexact x hx hx64
    · obtain rfl := List.mem_singleton.mp hx
      refine hf _ _ hx64 ?_
      rw [hv, ← hcycle, Nat.mod_eq_of_lt hx64]
  · intro x hx
    have he := hs'.le
    rcases List.mem_append.mp hx with hx | hx
    · have := hpast x hx
      show x.1 ≤ (r.clock.dtlsTimerTicks gap).1.timer.elapsed
      omega
    · obtain rfl := List.mem_singleton.mp hx
      show r.latchCycle ≤ _
      rw [hcycle]
      exact he
  · refine List.pairwise_append.mpr ⟨hsorted, List.pairwise_singleton _ _, ?_⟩
    intro x hx y hy
    obtain rfl := List.mem_singleton.mp hy
    have := hpast x hx
    show x.1 ≤ r.latchCycle
    omega

theorem Inv.step {r : ClockRun} (h : r.Inv) {op : ClockOp} (hd : (r.step op).Dense) : (r.step op).Inv := by
  rcases step_cases r op with he | ⟨gaps, he⟩ | ⟨gap, f, hf, he⟩
  · rw [he]
    obtain ⟨⟨k, hs, hk⟩, hexact, hpast, hsorted⟩ := h
    obtain ⟨hf, hel⟩ := hs.free.clock (w := .none) (Or.inl rfl)
    refine ⟨⟨k, ⟨hf, ?_, hs.last, hs.acc⟩, hk⟩, hexact, ?_, hsorted⟩
    · have := hs.le
      show k ≤ (r.clock.timer.clock .none).elapsed
      omega
    · intro x hx
      have := hpast x hx
      show x.1 ≤ (r.clock.timer.clock .none).elapsed
      omega
  · rw [he]
    obtain ⟨⟨k, hs, hk⟩, hexact, hpast, hsorted⟩ := h
    obtain ⟨hs', hel⟩ := hs.rng gaps
    exact ⟨⟨k, hs', hk⟩, hexact, fun x hx => (hpast x hx).trans hel, hsorted⟩
  · rw [he] at hd ⊢
    exact h.sample hf hd

/-- A step returns what it is asked for. -/
theorem scales_step (r : ClockRun) (op : ClockOp) :
    (r.step op).readings.map (·.2.scale) = r.readings.map (·.2.scale) ++ op.scale.toList := by
  cases op with
  | work => exact (List.append_nil _).symm
  | rng gaps => exact (List.append_nil _).symm
  | ticks gap => exact List.map_append
  | seconds gap => exact List.map_append
  | millis gap => exact List.map_append
  | lowRes gap => exact List.map_append

theorem scales_steps : ∀ (ops : List ClockOp) (r : ClockRun),
    (r.steps ops).readings.map (·.2.scale) = r.readings.map (·.2.scale) ++ ops.filterMap ClockOp.scale
  | [], _ => (List.append_nil _).symm
  | op :: ops, r => by
    have hrest := scales_steps ops (r.step op)
    rw [scales_step, List.append_assoc] at hrest
    rw [List.filterMap_cons]
    show ((r.step op).steps ops).readings.map (·.2.scale) = _
    rw [hrest]
    cases op.scale <;> rfl

/-- The samples of a run only grow. -/
theorem samples_step (r : ClockRun) (op : ClockOp) : r.samples <+: (r.step op).samples := by
  rcases step_cases r op with he | ⟨gaps, he⟩ | ⟨gap, f, -, he⟩
  · rw [he]; exact List.prefix_rfl
  · rw [he]; exact List.prefix_rfl
  · rw [he, samples_sample]; exact List.prefix_append _ _

theorem samples_steps : ∀ (ops : List ClockOp) (r : ClockRun), r.samples <+: (r.steps ops).samples
  | [], _ => List.prefix_rfl
  | op :: ops, r => (samples_step r op).trans (samples_steps ops (r.step op))

theorem Inv.steps : ∀ (ops : List ClockOp) {r : ClockRun}, r.Inv → (r.steps ops).Dense →
    (r.steps ops).Inv
  | [], _, h, _ => h
  | op :: ops, r, h, hd => by
    have hdense : (r.step op).Dense := List.IsChain.prefix hd (samples_steps ops (r.step op))
    exact Inv.steps ops (h.step hdense) hd

end ClockRun

theorem tells_of_exact {k k' : ℕ} (hle : k ≤ k') {x y : Reading} (hx : Exact k x) (hy : Exact k' y) :
    Tells k k' x y := by
  have hsub : ∀ (d : ℕ) (v w : UInt32), v.toNat = k / d % 2 ^ 32 → w.toNat = k' / d % 2 ^ 32 →
      k' / d - k / d < 2 ^ 32 → (w - v).toNat = k' / d - k / d := by
    intro d v w hv hw hlt
    have hdiv : k / d ≤ k' / d := Nat.div_le_div_right hle
    rw [UInt32.toNat_sub, hv, hw]
    exact wrap_sub hdiv (by omega)
  match x, y, hx, hy with
  | .ticks v, .ticks w, hx, hy =>
    show v ≤ w
    rw [UInt64.le_iff_toNat_le, hx, hy]
    exact hle
  | .seconds v, .seconds w, hx, hy => exact hsub 1000000 v w hx hy
  | .millis v, .millis w, hx, hy => exact hsub 1000 v w hx hy
  | .ticks _, .seconds _, _, _ => trivial
  | .ticks _, .millis _, _, _ => trivial
  | .seconds _, .ticks _, _, _ => trivial
  | .seconds _, .millis _, _, _ => trivial
  | .millis _, .ticks _, _, _ => trivial
  | .millis _, .seconds _, _, _ => trivial

/-- **The tick clock is exact across wraps.** After `dtls_timer_init`, in every
run whose samples are less than `2 ^ 32` cycles apart (the first one counted
from the enabling), each call returns the cycles from the enabling to its own
latch, or their seconds or milliseconds modulo `2 ^ 32`; and of any two calls
the ticks do not fall, and the differences of the seconds and of the
milliseconds modulo `2 ^ 32` are the true ones. No call is left out: the
readings are those asked for, in order. -/
theorem ticks_exact (c : Clock) (g₁ g₂ g₃ g₄ g₅ : ℕ) (ops : List ClockOp) (r : ClockRun)
    (hr : r = ClockRun.steps ⟨c.dtlsTimerInit g₁ g₂ g₃ g₄ g₅, []⟩ ops) (hd : r.Dense) :
    r.readings.map (·.2.scale) = ops.filterMap ClockOp.scale ∧
    (∀ x ∈ r.readings, x.1 < 2 ^ 64 → Exact x.1 x.2) ∧
    r.readings.Pairwise fun x y => y.1 < 2 ^ 64 → Tells x.1 y.1 x.2 y.2 := by
  have hinit : ClockRun.Inv ⟨c.dtlsTimerInit g₁ g₂ g₃ g₄ g₅, []⟩ := by
    obtain ⟨k, hk⟩ := synced_dtlsTimerInit c g₁ g₂ g₃ g₄ g₅
    refine ⟨⟨k, hk, ?_⟩, by simp, by simp, List.Pairwise.nil⟩
    intro x hx
    obtain rfl : x = 0 := by simpa [ClockRun.samples, eq_comm] using hx
    exact Nat.zero_le k
  have hinv : r.Inv := by
    rw [hr] at hd ⊢
    exact hinit.steps ops hd
  have hscales : r.readings.map (·.2.scale) = ops.filterMap ClockOp.scale := by
    rw [hr, ClockRun.scales_steps, List.map_nil, List.nil_append]
  refine ⟨hscales, hinv.exact, ?_⟩
  refine hinv.sorted.imp_of_mem fun {x y} hx hy hle hy64 => ?_
  exact tells_of_exact hle (hinv.exact x hx (by omega)) (hinv.exact y hy hy64)

/-- The clock before `main`. -/
def Clock.boot : Clock where
  timer := ⟨0, 0, false, false, 0, 0, 0⟩
  timerLastVal := 0
  timerWrapAcc := 0
  seed := 0x2545f491

/-- Readings of every kind around a block of two random bytes. -/
def mixedRun : ClockRun :=
  ClockRun.steps ⟨Clock.boot.dtlsTimerInit 0 1 0 0 1, []⟩
    [.ticks 0, .rng [2, 1], .work, .seconds 3, .ticks 1, .millis 0, .lowRes 0]

theorem ticks_exact_mixedRun : mixedRun.Dense ∧
    mixedRun.readings =
      [(4, .ticks 4), (14, .seconds 0), (19, .ticks 19), (22, .millis 0), (24, .seconds 0)] ∧
    ∀ x ∈ mixedRun.readings, x.1 < 2 ^ 64 → Exact x.1 x.2 := by
  have hreadings : mixedRun.readings =
      [(4, .ticks 4), (14, .seconds 0), (19, .ticks 19), (22, .millis 0), (24, .seconds 0)] := by
    decide +kernel
  have hd : mixedRun.Dense := by
    rw [ClockRun.Dense, ClockRun.samples, hreadings]
    decide
  exact ⟨hd, hreadings, (ticks_exact Clock.boot 0 1 0 0 1 _ mixedRun rfl hd).2.1⟩

end PqcDtls
