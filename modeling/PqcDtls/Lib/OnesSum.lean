/-
# One's-complement sums

The 16-bit one's-complement sum of a byte string, as internet checksums use
it: big-endian words, an odd last byte padded with a zero, every addition with
its carry added back (`onesSum`). It is the plain sum reduced to its residue
(`onesSum_eq_residue`), so the order and the moment of the carries do not
matter, and the complement of a sum completes it to `0xffff`
(`residue_complement`). A sum over the whole words only misses the last byte of
an odd string (`wordSum_evenPart`).
-/
import Mathlib.Tactic

namespace Lib

/-- Addition with end-around carry. -/
def onesAdd (a b : ℕ) : ℕ := (a + b) % 65536 + (a + b) / 65536

/-- The one's-complement sum of the big-endian 16-bit words of `l`. -/
def onesSum : List UInt8 → ℕ
  | [] => 0
  | [a] => a.toNat * 256
  | a :: b :: l => onesAdd (a.toNat * 256 + b.toNat) (onesSum l)

/-- The sum of the big-endian 16-bit words of `l`, carries kept. -/
def wordSum : List UInt8 → ℕ
  | [] => 0
  | [a] => a.toNat * 256
  | a :: b :: l => a.toNat * 256 + b.toNat + wordSum l

/-- The 16-bit one's-complement value of a number: 0 for 0, else between 1 and
`0xffff`. -/
def residue (x : ℕ) : ℕ := if x = 0 then 0 else (x - 1) % 65535 + 1

theorem residue_le (x : ℕ) : residue x ≤ 65535 := by
  unfold residue; split_ifs <;> omega

theorem residue_of_le {x : ℕ} (h : x ≤ 65535) : residue x = x := by
  unfold residue; split_ifs <;> omega

/-- Folding the high half into the low half keeps the residue. -/
theorem residue_carry (x : ℕ) : residue (x % 65536 + x / 65536) = residue x := by
  unfold residue; split_ifs <;> omega

theorem residue_add (x y : ℕ) : residue (x + residue y) = residue (x + y) := by
  unfold residue; split_ifs <;> omega

theorem onesAdd_residue {x : ℕ} (hx : x < 65536) (y : ℕ) :
    onesAdd x (residue y) = residue (x + y) := by
  have hy := residue_le y
  have hle : onesAdd x (residue y) ≤ 65535 := by unfold onesAdd; omega
  calc onesAdd x (residue y) = residue (onesAdd x (residue y)) := (residue_of_le hle).symm
    _ = residue (x + residue y) := residue_carry _
    _ = residue (x + y) := residue_add x y

theorem word_lt (a b : UInt8) : a.toNat * 256 + b.toNat < 65536 := by
  have ha := a.toNat_lt
  have hb := b.toNat_lt
  omega

/-- Carrying at every addition or once at the end is the same. -/
theorem onesSum_eq_residue : ∀ l : List UInt8, onesSum l = residue (wordSum l)
  | [] => rfl
  | [a] => by
    have ha := a.toNat_lt
    have hle : a.toNat * 256 ≤ 65535 := by omega
    rw [onesSum, wordSum, residue_of_le hle]
  | a :: b :: l => by
    rw [onesSum, wordSum, onesSum_eq_residue l, onesAdd_residue (word_lt a b)]

theorem wordSum_le : ∀ l : List UInt8, wordSum l ≤ 65535 * ((l.length + 1) / 2)
  | [] => by simp [wordSum]
  | [a] => by
    have ha := a.toNat_lt
    simp only [wordSum, List.length_singleton]
    omega
  | a :: b :: l => by
    have h1 := word_lt a b
    have h2 := wordSum_le l
    simp only [wordSum, List.length_cons]
    omega

/-- Words add up across a cut at an even place. -/
theorem wordSum_append : ∀ l l' : List UInt8, Even l.length →
    wordSum (l ++ l') = wordSum l + wordSum l'
  | [], l', _ => by simp [wordSum]
  | [a], _, h => by simp at h
  | a :: b :: l, l', h => by
    have h' : Even l.length := by
      simp only [List.length_cons] at h
      exact (Nat.even_add.mp (show Even (l.length + 2) from h)).mpr (by decide)
    simp only [List.cons_append, wordSum, wordSum_append l l' h']
    omega

/-- The zero byte an odd string is padded with adds nothing. -/
theorem wordSum_pad : ∀ l : List UInt8, ¬ Even l.length → wordSum (l ++ [0]) = wordSum l
  | [], h => by simp at h
  | [a], _ => by simp [wordSum]
  | a :: b :: l, h => by
    have h' : ¬ Even l.length := by
      simp only [List.length_cons] at h
      intro he
      exact h ((Nat.even_add.mpr ⟨fun _ => by decide, fun _ => he⟩ : Even (l.length + 2)))
    simp only [List.cons_append, wordSum, wordSum_pad l h']

/-- The whole words of a string. -/
def evenPart (l : List UInt8) : List UInt8 := l.take (2 * (l.length / 2))

/-- A last odd byte counts 256 times. -/
theorem wordSum_evenPart (l : List UInt8) :
    wordSum l = wordSum (evenPart l) + if Even l.length then 0 else 256 * (l.getLastD 0).toNat := by
  by_cases h : Even l.length
  · have hl : 2 * (l.length / 2) = l.length := Nat.two_mul_div_two_of_even h
    rw [evenPart, hl, List.take_length, if_pos h, Nat.add_zero]
  · have hodd := Nat.not_even_iff_odd.mp h
    have hl : 2 * (l.length / 2) = l.length - 1 := by
      have := Nat.two_mul_div_two_add_one_of_odd hodd
      omega
    have hne : l ≠ [] := by
      rintro rfl
      simp at h
    have hlast : l.getLastD 0 = l.getLast hne := by
      rw [List.getLastD_eq_getLast?, List.getLast?_eq_some_getLast hne]
      rfl
    have heven : Even l.dropLast.length := by
      rw [List.length_dropLast, ← hl]
      exact even_two_mul _
    rw [evenPart, hl, ← List.dropLast_eq_take, if_neg h, hlast]
    conv_lhs => rw [← List.dropLast_append_getLast hne]
    rw [wordSum_append _ _ heven, wordSum]
    omega

/-- The complement of a sum, `0xffff` standing for 0, completes it to `0xffff`. -/
theorem residue_complement (x c : ℕ)
    (hc : c = if 65535 - residue x = 0 then 65535 else 65535 - residue x) :
    residue (x + c) = 65535 := by
  subst hc
  unfold residue
  split_ifs <;> omega

end Lib
