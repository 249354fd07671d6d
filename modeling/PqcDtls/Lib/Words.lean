/-
# Bit fields over words

A bit field kept in `n` words of `w` bits, the lowest word first: bit `k` is bit
`k % w` of word `k / w`. Reading it after a word was replaced (`bit_set`) or a
bit was added (`bit_setBit`), and how a shift by `w * i + d` bits is put
together from two neighbouring words (`bit_shift`).
-/
import Mathlib.Tactic

namespace Lib

section Words

variable {w n : ℕ}

/-- Word `i` of a field; zero outside it. -/
def word (ws : Vector (BitVec w) n) (i : ℕ) : BitVec w := ws[i]?.getD 0

/-- Bit `k` of a field. -/
def bit (ws : Vector (BitVec w) n) (k : ℕ) : Bool := (word ws (k / w)).getLsbD (k % w)

theorem word_set {ws : Vector (BitVec w) n} {i j : ℕ} {x : BitVec w} :
    word (ws.setIfInBounds i x) j = if i = j ∧ i < n then x else word ws j := by
  unfold word
  rw [Vector.getElem?_setIfInBounds]
  split
  · next h =>
    subst h
    by_cases hi : i < n <;> simp [hi]
  · next h => simp [h]

theorem word_replicate (i : ℕ) : word (Vector.replicate n (0 : BitVec w)) i = 0 := by
  unfold word
  rw [Vector.getElem?_replicate]
  split <;> rfl

@[simp] theorem bit_replicate (k : ℕ) : bit (Vector.replicate n (0 : BitVec w)) k = false := by
  rw [bit, word_replicate]
  exact BitVec.getLsbD_zero

theorem bit_set {ws : Vector (BitVec w) n} {i k : ℕ} {x : BitVec w} :
    bit (ws.setIfInBounds i x) k = if i = k / w ∧ i < n then x.getLsbD (k % w) else bit ws k := by
  unfold bit
  rw [word_set]
  split <;> rfl

/-- Adding bit `j` to a field. -/
theorem bit_setBit (ws : Vector (BitVec w) n) {j k : ℕ} (hj : j < w * n) :
    bit (ws.setIfInBounds (j / w) (word ws (j / w) ||| 1#w <<< (j % w))) k =
      (bit ws k || decide (k = j)) := by
  have hw : 0 < w := Nat.pos_of_mul_pos_right (by omega : 0 < w * n)
  have hjn : j / w < n := Nat.div_lt_of_lt_mul hj
  have hone : ∀ r, r < w → (1#w <<< (j % w)).getLsbD r = decide (r = j % w) := by
    intro r hr
    rw [BitVec.getLsbD_shiftLeft, BitVec.getLsbD_one]
    by_cases h : r = j % w
    · simp [h, Nat.mod_lt j hw, hw]
    · have : r < j % w ∨ r - j % w ≠ 0 := by omega
      rcases this with h' | h' <;> simp [h, h']
  rw [bit_set]
  by_cases hq : j / w = k / w
  · rw [if_pos ⟨hq, hjn⟩, BitVec.getLsbD_or, hone _ (Nat.mod_lt k hw), bit, hq]
    congr 1
    apply decide_eq_decide.mpr
    constructor
    · intro h
      rw [← Nat.div_add_mod k w, ← Nat.div_add_mod j w, hq, h]
    · rintro rfl
      rfl
  · have hne : k ≠ j := by
      rintro rfl
      exact hq rfl
    simp [hq, hne]

/-- A field shifted up by `w * i + d` bits: word `j` takes the low bits of word
`j - i` and, under them, the high bits of the word below that one. -/
theorem bit_shift (ws us : Vector (BitVec w) n) {i d k : ℕ} (hw : 0 < w) (hd : d < w)
    (hk : word us (k / w) = if k / w < i then 0 else
      (if i < k / w ∧ 0 < d then word ws (k / w - 1 - i) >>> (w - d) else 0) |||
        word ws (k / w - i) <<< d) :
    bit us k = (decide (w * i + d ≤ k) && bit ws (k - (w * i + d))) := by
  have hmod := Nat.mod_lt k hw
  have hdiv := Nat.div_add_mod k w
  rw [bit, hk]
  rcases Nat.lt_or_ge (k / w) i with hi | hi
  · have : k < w * i := by
      calc k < w * (k / w) + w := by omega
        _ = w * (k / w + 1) := by ring
        _ ≤ w * i := Nat.mul_le_mul_left w hi
    have hle : ¬ w * i + d ≤ k := by omega
    simp [hi, hle]
  · obtain ⟨q, hq⟩ := Nat.exists_eq_add_of_le hi
    have hwk : w * (k / w) = w * i + w * q := by rw [hq]; ring
    rw [if_neg (by omega), BitVec.getLsbD_or, BitVec.getLsbD_shiftLeft]
    rcases Nat.lt_or_ge (k % w) d with hr | hr
    · -- the bit comes from the word below, if there is one
      rcases Nat.eq_zero_or_pos q with rfl | hq0
      · have hle : ¬ w * i + d ≤ k := by omega
        simp [hq, hr, hle]
      · have hle : w * i + d ≤ k := by
          have : w ≤ w * q := Nat.le_mul_of_pos_right w hq0
          omega
        have hsub : k - (w * i + d) = (k % w + w - d) + w * (q - 1) := by
          have : w * q = w * (q - 1) + w := by
            rw [← Nat.mul_succ]
            congr 1
            omega
          omega
        have hlt : k % w + w - d < w := by omega
        rw [if_pos ⟨by omega, by omega⟩, BitVec.getLsbD_ushiftRight, bit, hsub, Nat.add_mul_div_left _ _ hw,
          Nat.add_mul_mod_self_left, Nat.div_eq_of_lt hlt, Nat.mod_eq_of_lt hlt, decide_eq_true hle]
        have h1 : k / w - 1 - i = 0 + (q - 1) := by omega
        have h2 : w - d + k % w = k % w + w - d := by omega
        rw [h1, h2]
        simp [hr]
    · have hle : w * i + d ≤ k := by omega
      have hsub : k - (w * i + d) = (k % w - d) + w * q := by omega
      have hlt : k % w - d < w := by omega
      have hhigh : ∀ x : BitVec w, (x >>> (w - d)).getLsbD (k % w) = false := by
        intro x
        rw [BitVec.getLsbD_ushiftRight]
        exact BitVec.getLsbD_of_ge x _ (by omega)
      have hcarry : (if i < k / w ∧ 0 < d then word ws (k / w - 1 - i) >>> (w - d) else 0).getLsbD (k % w)
          = false := by
        split
        · exact hhigh _
        · exact BitVec.getLsbD_zero
      rw [hcarry, bit, hsub, Nat.add_mul_div_left _ _ hw, Nat.add_mul_mod_self_left, Nat.div_eq_of_lt hlt,
        Nat.mod_eq_of_lt hlt, decide_eq_true hle]
      have h1 : k / w - i = 0 + q := by omega
      rw [h1]
      simp [hmod, Nat.not_lt.mpr hr]

end Words

end Lib
