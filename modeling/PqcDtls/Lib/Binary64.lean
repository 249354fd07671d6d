/-
# Rounding to double precision

The quotient of two integers as a `binary64` number: 53 significant bits, the
nearest number, a tie to the even one, nothing beyond `2 ^ 1024`. Numbers are
positive rationals here. Where the divisor is a power of two, rounding the
quotient is rounding the dividend (`binary64_div_two_pow`), and integers of up
to `2 ^ 53` are not rounded at all (`round53_eq_self`).
-/
import Mathlib.Data.Int.Log
import Mathlib.Tactic

namespace Lib

/-- The nearest integer, a tie to the even one. -/
def roundEven (q : ℚ) : ℤ :=
  if 2 * (q - ⌊q⌋) < 1 then ⌊q⌋
  else if 1 < 2 * (q - ⌊q⌋) then ⌊q⌋ + 1
  else ⌊q⌋ + ⌊q⌋ % 2

/-- The exponent of the last place of a double next to `q`; below `2 ^ -1022` it
stays where it is. -/
def lastPlace (q : ℚ) : ℤ := max (Int.log 2 q) (-1022) - 52

/-- The double next to a positive `q`, unless it is too large for one. -/
def binary64 (q : ℚ) : Option ℚ :=
  let x : ℚ := roundEven (q / 2 ^ lastPlace q) * (2 : ℚ) ^ lastPlace q
  if x < 2 ^ 1024 then some x else none

/-- `a / d`, rounded to the nearest integer, a tie to the even one. -/
def divEven (a d : ℕ) : ℕ :=
  if 2 * (a % d) < d then a / d
  else if d < 2 * (a % d) then a / d + 1
  else a / d + a / d % 2

/-- An integer rounded to 53 significant bits. -/
def round53 (n : ℕ) : ℕ := divEven n (2 ^ (Nat.log 2 n - 52)) * 2 ^ (Nat.log 2 n - 52)

theorem roundEven_intCast (z : ℤ) : roundEven z = z := by
  unfold roundEven
  simp

theorem roundEven_div (a : ℕ) {d : ℕ} (hd : 0 < d) : roundEven ((a : ℚ) / d) = divEven a d := by
  have hfloor : ⌊(a : ℚ) / d⌋ = ((a / d : ℕ) : ℤ) := by
    rw [Rat.floor_natCast_div_natCast]
    rfl
  have hpos : (0 : ℚ) < d := by exact_mod_cast hd
  have hrem : (a : ℚ) / d - (a / d : ℕ) = (a % d : ℕ) / d := by
    have hdiv : (a : ℚ) = d * (a / d : ℕ) + (a % d : ℕ) := by exact_mod_cast (Nat.div_add_mod a d).symm
    rw [sub_eq_iff_eq_add, div_eq_iff hpos.ne', add_mul, div_mul_cancel₀ _ hpos.ne']
    linarith
  have hlt : 2 * ((a % d : ℕ) / d : ℚ) < 1 ↔ 2 * (a % d) < d := by
    rw [← mul_div_assoc, div_lt_one hpos]
    exact_mod_cast Iff.rfl
  have hgt : 1 < 2 * ((a % d : ℕ) / d : ℚ) ↔ d < 2 * (a % d) := by
    rw [← mul_div_assoc, one_lt_div hpos]
    exact_mod_cast Iff.rfl
  unfold roundEven divEven
  rw [hfloor, Int.cast_natCast, hrem]
  simp only [hlt, hgt]
  split_ifs <;> push_cast <;> rfl

theorem divEven_mul (a : ℕ) {d : ℕ} (hd : 0 < d) (hdvd : d ∣ a) : divEven a d * d = a := by
  unfold divEven
  rw [Nat.mod_eq_zero_of_dvd hdvd, if_pos (by omega)]
  exact Nat.div_mul_cancel hdvd

/-- **Integers of up to `2 ^ 53` are doubles.** -/
theorem round53_eq_self {n : ℕ} (hn : n ≤ 2 ^ 53) : round53 n = n := by
  apply divEven_mul n (by positivity)
  rcases Nat.lt_or_eq_of_le hn with hlt | rfl
  · have hlog : Nat.log 2 n ≤ 52 := Nat.lt_succ_iff.mp (Nat.log_lt_of_lt_pow' (by norm_num) hlt)
    rw [Nat.sub_eq_zero_of_le hlog]
    exact one_dvd n
  · rw [Nat.log_pow one_lt_two]
    norm_num

/-- The first integer that is none. -/
theorem round53_first : round53 (2 ^ 53 + 1) = 2 ^ 53 := by
  have hlog : Nat.log 2 (2 ^ 53 + 1) = 53 := by
    rw [Nat.log_eq_iff (Or.inl (by norm_num))]
    norm_num
  unfold round53
  rw [hlog]
  norm_num [divEven]

theorem log_div_two_pow {n : ℕ} (hn : 0 < n) (k : ℕ) : Int.log 2 ((n : ℚ) / 2 ^ k) = Nat.log 2 n - k := by
  have hpos : (0 : ℚ) < n / 2 ^ k := by positivity
  have hsplit (z : ℤ) : (2 : ℚ) ^ (z - k) = 2 ^ z / 2 ^ k := by
    rw [zpow_sub₀ two_ne_zero, zpow_natCast]
  apply le_antisymm
  · apply Int.lt_add_one_iff.mp
    apply (Int.lt_zpow_iff_log_lt one_lt_two hpos).mp
    have hlt : (n : ℚ) < 2 ^ (Nat.log 2 n + 1) := by exact_mod_cast Nat.lt_pow_succ_log_self one_lt_two n
    rw [show (Nat.log 2 n : ℤ) - k + 1 = ((Nat.log 2 n + 1 : ℕ) : ℤ) - k by push_cast; ring]
    rw [Nat.cast_two, hsplit, zpow_natCast]
    gcongr
  · apply (Int.zpow_le_iff_le_log one_lt_two hpos).mp
    have hle : (2 : ℚ) ^ Nat.log 2 n ≤ n := by exact_mod_cast Nat.pow_log_le_self 2 hn.ne'
    rw [Nat.cast_two, hsplit, zpow_natCast]
    gcongr

/-- Rounding in units of the last place: below `2 ^ 52` an integer has places to
spare, above it loses them. -/
theorem roundEven_lastPlace {n : ℕ} (hn : 0 < n) {k : ℕ} (hk : k ≤ 1022) :
    (roundEven ((n : ℚ) / 2 ^ k / 2 ^ lastPlace (n / 2 ^ k)) : ℚ) * 2 ^ lastPlace (n / 2 ^ k) =
      round53 n / 2 ^ k := by
  have hplace : lastPlace ((n : ℚ) / 2 ^ k) = Nat.log 2 n - k - 52 := by
    unfold lastPlace
    rw [log_div_two_pow hn]
    omega
  rw [hplace]
  rcases Nat.lt_or_ge (Nat.log 2 n) 52 with hlog | hlog
  · obtain ⟨j, hj⟩ : ∃ j, Nat.log 2 n + j = 52 := ⟨52 - Nat.log 2 n, by omega⟩
    have hunit : (2 : ℚ) ^ ((Nat.log 2 n : ℤ) - k - 52) = 1 / (2 ^ k * 2 ^ j) := by
      rw [show (Nat.log 2 n : ℤ) - k - 52 = -((k + j : ℕ) : ℤ) by push_cast; omega, zpow_neg, zpow_natCast, pow_add,
        one_div]
    have hint : (n : ℚ) / 2 ^ k / (1 / (2 ^ k * 2 ^ j)) = ((n * 2 ^ j : ℕ) : ℤ) := by
      push_cast
      field_simp
    have hself : round53 n = n := by
      apply round53_eq_self
      exact (Nat.lt_pow_of_log_lt one_lt_two (by omega)).le
    rw [hunit, hint, roundEven_intCast, hself]
    push_cast
    field_simp
  · have hunit : (2 : ℚ) ^ ((Nat.log 2 n : ℤ) - k - 52) = 2 ^ (Nat.log 2 n - 52) / 2 ^ k := by
      rw [show (Nat.log 2 n : ℤ) - k - 52 = ((Nat.log 2 n - 52 : ℕ) : ℤ) - (k : ℕ) by omega, zpow_sub₀ two_ne_zero,
        zpow_natCast, zpow_natCast]
    have hquot : (n : ℚ) / 2 ^ k / (2 ^ (Nat.log 2 n - 52) / 2 ^ k) = n / (2 ^ (Nat.log 2 n - 52) : ℕ) := by
      push_cast
      field_simp
    rw [hunit, hquot, roundEven_div n (by positivity), round53]
    push_cast
    ring

/-- **A quotient by a power of two.** The double next to it is the dividend,
rounded, over that power. -/
theorem binary64_div_two_pow {n : ℕ} (hn : 0 < n) {k : ℕ} (hk : k ≤ 1022) :
    binary64 ((n : ℚ) / 2 ^ k) =
      if round53 n < 2 ^ (1024 + k) then some ((round53 n : ℚ) / 2 ^ k) else none := by
  have hlt : (round53 n : ℚ) / 2 ^ k < 2 ^ 1024 ↔ round53 n < 2 ^ (1024 + k) := by
    rw [div_lt_iff₀ (by positivity), ← pow_add]
    exact_mod_cast Iff.rfl
  unfold binary64
  dsimp only
  rw [roundEven_lastPlace hn hk]
  simp only [hlt]

end Lib
