/-
# Byte memory

A byte-addressed memory is a total function from addresses to bytes. Stores
of 16 and 32 bits are little-endian, as the CPU's are; network byte order is
the callers' business. What a proof needs of a block of memory is its list of
bytes (`Mem.read`), and that a store elsewhere leaves it alone.

Key definitions: `Mem.set`, `Mem.write`, `Mem.read`, `Mem.load16`,
`Mem.store16`, `Mem.load32`, `Mem.store32`.
-/
import Mathlib.Data.List.Basic
import Mathlib.Tactic

namespace Lib

/-- A byte-addressed memory. -/
abbrev Mem := ℕ → UInt8

namespace Mem

/-- Store one byte. -/
def set (m : Mem) (a : ℕ) (v : UInt8) : Mem := fun x => if x = a then v else m x

/-- Store the bytes `l` from address `a` on. -/
def write (m : Mem) (a : ℕ) (l : List UInt8) : Mem :=
  fun x => if a ≤ x ∧ x < a + l.length then l.getD (x - a) 0 else m x

/-- The `n` bytes from address `a` on. -/
def read (m : Mem) (a n : ℕ) : List UInt8 := (List.range n).map fun i => m (a + i)

/-- A 16-bit load, little-endian. -/
def load16 (m : Mem) (a : ℕ) : UInt16 := (m a).toUInt16 ||| ((m (a + 1)).toUInt16 <<< 8)

/-- A 16-bit store, little-endian. -/
def store16 (m : Mem) (a : ℕ) (v : UInt16) : Mem :=
  (m.set a v.toUInt8).set (a + 1) (v >>> 8).toUInt8

/-- A 32-bit load, little-endian. -/
def load32 (m : Mem) (a : ℕ) : UInt32 :=
  (m a).toUInt32 ||| ((m (a + 1)).toUInt32 <<< 8) ||| ((m (a + 2)).toUInt32 <<< 16) |||
    ((m (a + 3)).toUInt32 <<< 24)

/-- A 32-bit store, little-endian. -/
def store32 (m : Mem) (a : ℕ) (v : UInt32) : Mem :=
  (((m.set a v.toUInt8).set (a + 1) (v >>> 8).toUInt8).set (a + 2) (v >>> 16).toUInt8).set (a + 3)
    (v >>> 24).toUInt8

/-! ### Single bytes -/

theorem set_apply (m : Mem) (a : ℕ) (v : UInt8) (x : ℕ) :
    m.set a v x = if x = a then v else m x := rfl

@[simp] theorem set_same (m : Mem) (a : ℕ) (v : UInt8) : m.set a v a = v := by
  simp [set]

theorem set_ne (m : Mem) {a x : ℕ} (v : UInt8) (h : x ≠ a) : m.set a v x = m x := by
  simp [set, h]

/-! ### Blocks -/

@[simp] theorem length_read (m : Mem) (a n : ℕ) : (m.read a n).length = n := by
  simp [read]

@[simp] theorem getElem_read (m : Mem) (a n i : ℕ) (h : i < (m.read a n).length) :
    (m.read a n)[i] = m (a + i) := by
  simp [read]

@[simp] theorem read_zero (m : Mem) (a : ℕ) : m.read a 0 = [] := rfl

theorem read_succ (m : Mem) (a n : ℕ) : m.read a (n + 1) = m.read a n ++ [m (a + n)] := by
  simp [read, List.range_succ]

theorem read_cons (m : Mem) (a n : ℕ) : m.read a (n + 1) = m a :: m.read (a + 1) n := by
  simp [read, List.range_succ_eq_map, Function.comp_def, Nat.add_assoc, Nat.add_comm 1]

/-- A block is its first part, then the rest. -/
theorem read_add (m : Mem) (a n : ℕ) : ∀ k, m.read a (n + k) = m.read a n ++ m.read (a + n) k
  | 0 => by simp
  | k + 1 => by
    rw [← Nat.add_assoc, read_succ, read_add m a n k, read_succ, List.append_assoc, Nat.add_assoc]

theorem read_congr {m m' : Mem} {a n : ℕ} (h : ∀ i, i < n → m (a + i) = m' (a + i)) :
    m.read a n = m'.read a n := by
  apply List.map_congr_left
  intro i hi
  exact h i (List.mem_range.mp hi)

/-- The same bytes read from two memories at two addresses. -/
theorem read_eq_read {m m' : Mem} {a b n : ℕ} (h : ∀ i, i < n → m (a + i) = m' (b + i)) :
    m.read a n = m'.read b n := by
  apply List.map_congr_left
  intro i hi
  exact h i (List.mem_range.mp hi)

theorem take_read (m : Mem) (a n k : ℕ) : (m.read a n).take k = m.read a (min k n) := by
  simp [read, ← List.map_take, List.take_range]

/-! ### Writing a block -/

theorem write_apply_of_lt (m : Mem) {a : ℕ} (l : List UInt8) {i : ℕ} (h : i < l.length) :
    m.write a l (a + i) = l[i] := by
  simp [write, h]

theorem write_apply_out (m : Mem) {a : ℕ} (l : List UInt8) {x : ℕ}
    (h : x < a ∨ a + l.length ≤ x) : m.write a l x = m x := by
  simp only [write, ite_eq_right_iff]
  intro hx
  omega

@[simp] theorem read_write (m : Mem) (a : ℕ) (l : List UInt8) :
    (m.write a l).read a l.length = l := by
  apply List.ext_getElem
  · simp
  · intro i h1 h2
    simp [write_apply_of_lt m l h2]

/-- A block of a written memory that lies inside the written bytes. -/
theorem read_write_drop (m : Mem) (a : ℕ) (l : List UInt8) {k n : ℕ} (h : k + n ≤ l.length) :
    (m.write a l).read (a + k) n = (l.drop k).take n := by
  apply List.ext_getElem
  · simp; omega
  · intro i h1 h2
    have hi : k + i < l.length := by simp at h1; omega
    simp only [getElem_read, Nat.add_assoc, write_apply_of_lt m l hi, List.getElem_take,
      List.getElem_drop]

/-- Writing one block right after another is writing both. -/
theorem write_append (m : Mem) (a : ℕ) (l l' : List UInt8) :
    m.write a (l ++ l') = (m.write a l).write (a + l.length) l' := by
  funext x
  by_cases h1 : a ≤ x ∧ x < a + l.length
  · obtain ⟨i, rfl⟩ : ∃ i, x = a + i := ⟨x - a, by omega⟩
    rw [write_apply_of_lt m _ (by simp; omega), write_apply_out _ _ (by omega),
      write_apply_of_lt m _ (by omega), List.getElem_append_left]
  · by_cases h2 : a + l.length ≤ x ∧ x < a + l.length + l'.length
    · obtain ⟨i, rfl⟩ : ∃ i, x = a + l.length + i := ⟨x - (a + l.length), by omega⟩
      rw [write_apply_of_lt _ _ (by omega), Nat.add_assoc, write_apply_of_lt m _ (by simp; omega),
        List.getElem_append_right (by omega)]
      simp
    · rw [write_apply_out m _ (by simp; omega), write_apply_out _ _ (by omega),
        write_apply_out _ _ (by omega)]

theorem write_cons (m : Mem) (a : ℕ) (v : UInt8) (l : List UInt8) :
    m.write a (v :: l) = (m.write a [v]).write (a + 1) l := write_append m a [v] l

theorem write_nil (m : Mem) (a : ℕ) : m.write a [] = m := by
  funext x
  exact write_apply_out m [] (by simp; omega)

theorem set_eq_write (m : Mem) (a : ℕ) (v : UInt8) : m.set a v = m.write a [v] := by
  funext x
  rcases Nat.lt_trichotomy x a with h | rfl | h
  · rw [set_ne _ _ (by omega), write_apply_out _ _ (by omega)]
  · simp [write]
  · rw [set_ne _ _ (by omega), write_apply_out _ _ (by simp; omega)]

theorem store16_eq_write (m : Mem) (a : ℕ) (v : UInt16) :
    m.store16 a v = m.write a [v.toUInt8, (v >>> 8).toUInt8] := by
  rw [store16, set_eq_write, set_eq_write, ← write_cons]

theorem store32_eq_write (m : Mem) (a : ℕ) (v : UInt32) :
    m.store32 a v =
      m.write a [v.toUInt8, (v >>> 8).toUInt8, (v >>> 16).toUInt8, (v >>> 24).toUInt8] := by
  have h : [v.toUInt8, (v >>> 8).toUInt8, (v >>> 16).toUInt8, (v >>> 24).toUInt8] =
      [v.toUInt8] ++ [(v >>> 8).toUInt8] ++ [(v >>> 16).toUInt8] ++ [(v >>> 24).toUInt8] := rfl
  simp only [store32, set_eq_write, h, write_append]
  rfl

/-- Writing inside a block that was just written changes the block. -/
theorem write_write_inside (m : Mem) (a k : ℕ) (l l' : List UInt8) (h : k + l'.length ≤ l.length) :
    (m.write a l).write (a + k) l' =
      m.write a (l.take k ++ l' ++ l.drop (k + l'.length)) := by
  have hk : (l.take k).length = k := by simp; omega
  funext x
  by_cases h1 : a + k ≤ x ∧ x < a + k + l'.length
  · obtain ⟨i, rfl⟩ : ∃ i, x = a + k + i := ⟨x - (a + k), by omega⟩
    rw [write_apply_of_lt _ _ (by omega), Nat.add_assoc,
      write_apply_of_lt m _ (by simp; omega)]
    rw [List.getElem_append_left (by simp; omega), List.getElem_append_right (by omega)]
    simp [hk]
  · rw [write_apply_out _ _ (by omega)]
    by_cases h2 : a ≤ x ∧ x < a + l.length
    · obtain ⟨i, rfl⟩ : ∃ i, x = a + i := ⟨x - a, by omega⟩
      rw [write_apply_of_lt _ _ (by omega), write_apply_of_lt m _ (by simp; omega)]
      rcases Nat.lt_or_ge i k with hi | hi
      · rw [List.getElem_append_left (by simp; omega), List.getElem_append_left (by omega)]
        simp
      · rw [List.getElem_append_right (by simp; omega)]
        simp only [List.getElem_drop, List.length_append, hk]
        congr 1
        omega
    · rw [write_apply_out _ _ (by omega), write_apply_out _ _ (by simp; omega)]

/-- Of two writes of one size at one place the second counts. -/
theorem write_write_same (m : Mem) (a : ℕ) {l l' : List UInt8} (h : l'.length = l.length) :
    (m.write a l).write a l' = m.write a l' := by
  have hin := write_write_inside m a 0 l l' (by omega)
  rw [Nat.add_zero, Nat.zero_add, h, List.drop_length, List.take_zero, List.nil_append, List.append_nil] at hin
  exact hin

/-- Blocks that lie apart are written in either order. -/
theorem write_comm (m : Mem) {l l' : List UInt8} (a b : ℕ) (h : a + l.length ≤ b ∨ b + l'.length ≤ a) :
    (m.write a l).write b l' = (m.write b l').write a l := by
  funext x
  by_cases ha : a ≤ x ∧ x < a + l.length
  · obtain ⟨i, rfl⟩ : ∃ i, x = a + i := ⟨x - a, by omega⟩
    rw [write_apply_out _ _ (by omega), write_apply_of_lt _ _ (by omega), write_apply_of_lt _ _ (by omega)]
  · rw [write_apply_out _ l (by omega)]
    by_cases hb : b ≤ x ∧ x < b + l'.length
    · obtain ⟨i, rfl⟩ : ∃ i, x = b + i := ⟨x - b, by omega⟩
      rw [write_apply_of_lt _ _ (by omega), write_apply_of_lt _ _ (by omega)]
    · rw [write_apply_out _ l' (by omega), write_apply_out _ l (by omega), write_apply_out _ l' (by omega)]

/-- A block apart from the written bytes stays as it was. -/
theorem read_write_apart (m : Mem) {a b n : ℕ} (l : List UInt8)
    (h : b + n ≤ a ∨ a + l.length ≤ b) : (m.write a l).read b n = m.read b n :=
  read_congr fun i hi => write_apply_out m l (by omega)

end Mem
end Lib
