/-
# Big-endian numbers

Numbers as `k` bytes, the highest first, and back: what is read of what was
written is the number modulo `256 ^ k` (`ofBigEndian_bigEndian`), and two numbers of
`k` bytes are not written alike (`bigEndian_inj`).
-/
import Mathlib.Tactic

namespace Lib

/-- The low `k` bytes of a number, the highest first. -/
def bigEndian : ℕ → ℕ → List UInt8
  | 0, _ => []
  | k + 1, v => UInt8.ofNat (v / 256 ^ k) :: bigEndian k v

/-- The number that bytes stand for. -/
def ofBigEndian : List UInt8 → ℕ
  | [] => 0
  | b :: bs => b.toNat * 256 ^ bs.length + ofBigEndian bs

@[simp] theorem length_bigEndian : ∀ k v, (bigEndian k v).length = k
  | 0, _ => rfl
  | k + 1, v => by simp [bigEndian, length_bigEndian k v]

theorem ofBigEndian_lt : ∀ l : List UInt8, ofBigEndian l < 256 ^ l.length
  | [] => by simp [ofBigEndian]
  | b :: bs => by
    have hb : b.toNat < 256 := b.toNat_lt
    calc ofBigEndian (b :: bs) < b.toNat * 256 ^ bs.length + 256 ^ bs.length :=
          Nat.add_lt_add_left (ofBigEndian_lt bs) _
      _ = (b.toNat + 1) * 256 ^ bs.length := by ring
      _ ≤ 256 * 256 ^ bs.length := Nat.mul_le_mul_right _ (by omega)
      _ = 256 ^ (b :: bs).length := by rw [List.length_cons, Nat.pow_succ']

/-- What is read back is the number modulo `256 ^ k`. -/
@[simp] theorem ofBigEndian_bigEndian : ∀ k v, ofBigEndian (bigEndian k v) = v % 256 ^ k
  | 0, v => by simp [bigEndian, ofBigEndian, Nat.mod_one]
  | k + 1, v => by
    have hsplit : v % 256 ^ (k + 1) = v % 256 ^ k + 256 ^ k * (v / 256 ^ k % 256) := by
      rw [Nat.pow_succ, Nat.mod_mul]
    rw [bigEndian, ofBigEndian, length_bigEndian, ofBigEndian_bigEndian k v, UInt8.toNat_ofNat', hsplit, Nat.add_comm,
      Nat.mul_comm]

theorem ofBigEndian_bigEndian_of_lt {k v : ℕ} (h : v < 256 ^ k) : ofBigEndian (bigEndian k v) = v := by
  rw [ofBigEndian_bigEndian, Nat.mod_eq_of_lt h]

theorem bigEndian_inj {k v v' : ℕ} (hv : v < 256 ^ k) (hv' : v' < 256 ^ k)
    (h : bigEndian k v = bigEndian k v') : v = v' := by
  rw [← ofBigEndian_bigEndian_of_lt hv, h, ofBigEndian_bigEndian_of_lt hv']

end Lib
