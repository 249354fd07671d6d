/-
# Excerpts of a list

`excerpt l o n` is the `n` entries of `l` from place `o` on. Excerpts that meet are
put together by appending (`excerpt_append`), and part of an excerpt is an excerpt
(`take_excerpt`, `drop_excerpt`).
-/
import Mathlib.Tactic

namespace Lib

variable {α : Type}

/-- The `n` entries from place `o` on. -/
def excerpt (l : List α) (o n : ℕ) : List α := (l.drop o).take n

@[simp] theorem length_excerpt {l : List α} {o n : ℕ} (h : o + n ≤ l.length) : (excerpt l o n).length = n := by
  simp only [excerpt, List.length_take, List.length_drop]
  omega

theorem excerpt_all (l : List α) : excerpt l 0 l.length = l := by simp [excerpt]

/-- What stands in the middle is read there. -/
theorem excerpt_middle (a b c : List α) {o n : ℕ} (ho : o = a.length) (hn : n = b.length) :
    excerpt (a ++ (b ++ c)) o n = b := by
  subst ho hn
  simp [excerpt]

theorem excerpt_append (l : List α) (o a b : ℕ) : excerpt l o a ++ excerpt l (o + a) b = excerpt l o (a + b) := by
  simp only [excerpt]
  rw [← List.drop_drop, ← List.take_add]

theorem take_excerpt (l : List α) {o n k : ℕ} (h : k ≤ n) : (excerpt l o n).take k = excerpt l o k := by
  simp only [excerpt, List.take_take, Nat.min_eq_left h]

theorem drop_excerpt (l : List α) (o n k : ℕ) : (excerpt l o n).drop k = excerpt l (o + k) (n - k) := by
  simp only [excerpt, List.drop_take, List.drop_drop]

end Lib
