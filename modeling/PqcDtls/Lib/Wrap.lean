/-
# Counters that wrap

A counter that is read modulo `M` still gives true differences, and its number
of wraps can be followed from sample to sample, as long as less than `M` passes
between two samples: a smaller reading means exactly one wrap (`wrap_div`), and
the difference modulo `M` is the true one (`wrap_sub`, `ofNat_sub_toNat`).
-/
import Mathlib.Tactic

namespace Lib

/-- Between two samples less than `M` apart, the counter wrapped once if its
reading fell, and not at all otherwise. -/
theorem wrap_div {M j k : ℕ} (hle : j ≤ k) (hlt : k < j + M) :
    k / M = if k % M < j % M then j / M + 1 else j / M := by
  have hM : 0 < M := by omega
  have hj := Nat.div_add_mod j M
  have hk := Nat.div_add_mod k M
  have hjm := Nat.mod_lt j hM
  have hkm := Nat.mod_lt k hM
  have h1 : j / M ≤ k / M := Nat.div_le_div_right hle
  have h2 : k / M ≤ j / M + 1 := by
    have := Nat.div_le_div_right (c := M) hlt.le
    rwa [Nat.add_div_right j hM] at this
  rcases Nat.lt_or_ge (j / M) (k / M) with h | h
  · have he : k / M = j / M + 1 := by omega
    have hmul : M * (k / M) = M * (j / M) + M := by rw [he, Nat.mul_add, Nat.mul_one]
    rw [if_pos (by omega), he]
  · have he : k / M = j / M := by omega
    rw [he] at hk
    rw [if_neg (by omega), he]

/-- The difference of two readings is the true one modulo `M`. -/
theorem wrap_sub_mod {M a b : ℕ} (hM : 0 < M) (hle : a ≤ b) :
    (M - a % M + b % M) % M = (b - a) % M := by
  have ham := Nat.mod_lt a hM
  have h : M - a % M + b % M + a ≡ b - a + a [MOD M] := by
    have h1 : a ≡ a % M [MOD M] := (Nat.mod_modEq a M).symm
    calc M - a % M + b % M + a ≡ M - a % M + b % M + a % M [MOD M] := Nat.ModEq.add_left _ h1
      _ = b % M + M := by omega
      _ ≡ b % M [MOD M] := by simp [Nat.ModEq]
      _ ≡ b [MOD M] := Nat.mod_modEq b M
      _ = b - a + a := by omega
  exact Nat.ModEq.add_right_cancel' a h

/-- Two readings less than `M` apart give the true difference. -/
theorem wrap_sub {M a b : ℕ} (hle : a ≤ b) (hlt : b < a + M) : (M - a % M + b % M) % M = b - a := by
  rw [wrap_sub_mod (by omega) hle, Nat.mod_eq_of_lt (by omega)]

/-- Subtraction of two 32-bit readings. -/
theorem ofNat_sub_toNat_mod {a b : ℕ} (hle : a ≤ b) :
    (UInt32.ofNat b - UInt32.ofNat a).toNat = (b - a) % 2 ^ 32 := by
  rw [UInt32.toNat_sub, UInt32.toNat_ofNat', UInt32.toNat_ofNat']
  exact wrap_sub_mod (by decide) hle

theorem ofNat_sub_toNat {a b : ℕ} (hle : a ≤ b) (hlt : b < a + 2 ^ 32) :
    (UInt32.ofNat b - UInt32.ofNat a).toNat = b - a := by
  rw [ofNat_sub_toNat_mod hle, Nat.mod_eq_of_lt (by omega)]

end Lib
