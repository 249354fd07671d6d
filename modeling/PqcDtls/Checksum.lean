/-
# Byte order and `ip_checksum`

What the swapped loads and stores of `inet.h` mean for the bytes in memory,
and that `ip_checksum` computes the one's-complement sum of its block
(`ipChecksum_sum`) or the complement of it, `0xffff` standing for 0
(`ipChecksum_complete`), as long as the 32-bit sum of the words does not
overflow. A packet has at most 772 words, far below that.
-/
import PqcDtls.Lib.OnesSum
import PqcDtls.Liteeth

namespace PqcDtls

open Lib

/-! ### Byte order -/

/-- The bytes of a 16-bit value in network order. -/
def be16 (v : UInt16) : List UInt8 := [(v >>> 8).toUInt8, v.toUInt8]

/-- The bytes of a 32-bit value in network order. -/
def be32 (v : UInt32) : List UInt8 :=
  [(v >>> 24).toUInt8, (v >>> 16).toUInt8, (v >>> 8).toUInt8, v.toUInt8]

@[simp] theorem htons_byte0 (x : UInt16) : (htons x).toUInt8 = (x >>> 8).toUInt8 := by
  apply UInt8.toBitVec_inj.mp
  ext i hi
  interval_cases i <;> simp [htons, bswap16]

@[simp] theorem htons_byte1 (x : UInt16) : (htons x >>> 8).toUInt8 = x.toUInt8 := by
  apply UInt8.toBitVec_inj.mp
  ext i hi
  interval_cases i <;> simp [htons, bswap16]

@[simp] theorem htonl_byte0 (x : UInt32) : (htonl x).toUInt8 = (x >>> 24).toUInt8 := by
  apply UInt8.toBitVec_inj.mp
  ext i hi
  interval_cases i <;> simp [htonl, bswap32]

@[simp] theorem htonl_byte1 (x : UInt32) : (htonl x >>> 8).toUInt8 = (x >>> 16).toUInt8 := by
  apply UInt8.toBitVec_inj.mp
  ext i hi
  interval_cases i <;> simp [htonl, bswap32]

@[simp] theorem htonl_byte2 (x : UInt32) : (htonl x >>> 16).toUInt8 = (x >>> 8).toUInt8 := by
  apply UInt8.toBitVec_inj.mp
  ext i hi
  interval_cases i <;> simp [htonl, bswap32]

@[simp] theorem htonl_byte3 (x : UInt32) : (htonl x >>> 24).toUInt8 = x.toUInt8 := by
  apply UInt8.toBitVec_inj.mp
  ext i hi
  interval_cases i <;> simp [htonl, bswap32]

theorem ntohs_load16_eq (m : Mem) (a : ℕ) :
    ntohs (m.load16 a) = (m a).toUInt16 <<< 8 ||| (m (a + 1)).toUInt16 := by
  apply UInt16.toBitVec_inj.mp
  ext i hi
  interval_cases i <;> simp [ntohs, bswap16, Mem.load16]

/-- A swapped load reads its two bytes in network order. -/
theorem ntohs_load16_toNat (m : Mem) (a : ℕ) :
    (ntohs (m.load16 a)).toNat = (m a).toNat * 256 + (m (a + 1)).toNat := by
  have h0 := (m a).toNat_lt
  have h1 := (m (a + 1)).toNat_lt
  have h8 : (8 : UInt16).toNat % 16 = 8 := rfl
  rw [ntohs_load16_eq]
  simp only [UInt16.toNat_or, UInt16.toNat_shiftLeft, UInt8.toNat_toUInt16]
  rw [h8, Nat.mod_eq_of_lt, ← Nat.shiftLeft_add_eq_or_of_lt, Nat.shiftLeft_eq]
  · omega
  · rw [Nat.shiftLeft_eq]; omega

/-- The two bytes of a 16-bit value in network order, as a number. -/
theorem be16_toNat (v : UInt16) : (v >>> 8).toUInt8.toNat * 256 + v.toUInt8.toNat = v.toNat := by
  have h := v.toNat_lt
  have h8 : (8 : UInt16).toNat % 16 = 8 := rfl
  simp only [UInt16.toNat_toUInt8, UInt16.toNat_shiftRight, h8, Nat.shiftRight_eq_div_pow]
  omega

/-- The four bytes of a 32-bit value in network order, as a number. -/
theorem be32_toNat (v : UInt32) : (v >>> 24).toUInt8.toNat * 2 ^ 24 + (v >>> 16).toUInt8.toNat * 2 ^ 16 +
    (v >>> 8).toUInt8.toNat * 2 ^ 8 + v.toUInt8.toNat = v.toNat := by
  have h := v.toNat_lt
  have h8 : (8 : UInt32).toNat % 32 = 8 := rfl
  have h16 : (16 : UInt32).toNat % 32 = 16 := rfl
  have h24 : (24 : UInt32).toNat % 32 = 24 := rfl
  simp only [UInt32.toNat_toUInt8, UInt32.toNat_shiftRight, h8, h16, h24, Nat.shiftRight_eq_div_pow]
  omega

theorem load32_bytes (m : Mem) (a : ℕ) : (m.load32 a).toUInt8 = m a ∧ (m.load32 a >>> 8).toUInt8 = m (a + 1) ∧
    (m.load32 a >>> 16).toUInt8 = m (a + 2) ∧ (m.load32 a >>> 24).toUInt8 = m (a + 3) := by
  refine ⟨?_, ?_, ?_, ?_⟩
  all_goals
    apply UInt8.toBitVec_inj.mp
    ext i hi
    interval_cases i <;> simp [Mem.load32]

/-- Four bytes are in network order what a swapped load makes of them. -/
theorem be32_ntohl_load32 (m : Mem) (a : ℕ) :
    be32 (ntohl (m.load32 a)) = [m a, m (a + 1), m (a + 2), m (a + 3)] := by
  obtain ⟨h0, h1, h2, h3⟩ := load32_bytes m a
  show be32 (htonl (m.load32 a)) = _
  rw [be32, htonl_byte3, htonl_byte2, htonl_byte1, htonl_byte0, h0, h1, h2, h3]

/-- A swapped load of four bytes in network order gives their value back. -/
theorem ntohl_load32 {m : Mem} {a : ℕ} {v : UInt32} (h0 : m a = (v >>> 24).toUInt8)
    (h1 : m (a + 1) = (v >>> 16).toUInt8) (h2 : m (a + 2) = (v >>> 8).toUInt8)
    (h3 : m (a + 3) = v.toUInt8) : ntohl (m.load32 a) = v := by
  have hbytes := be32_ntohl_load32 m a
  rw [h0, h1, h2, h3] at hbytes
  simp only [be32, List.cons.injEq, and_true] at hbytes
  obtain ⟨e0, e1, e2, e3⟩ := hbytes
  apply UInt32.toNat_inj.mp
  rw [← be32_toNat (ntohl (m.load32 a)), e0, e1, e2, e3, be32_toNat]

/-! ### `ip_checksum` -/

namespace Eth

theorem word_toNat (m : Mem) (a : ℕ) :
    (word m a).toNat = (m a).toNat * 256 + (m (a + 1)).toNat := by
  have h0 := (m a).toNat_lt
  have h1 := (m (a + 1)).toNat_lt
  have h8 : (8 : UInt32).toNat % 32 = 8 := rfl
  simp only [word, UInt32.toNat_or, UInt32.toNat_shiftLeft, UInt8.toNat_toUInt32]
  rw [h8, Nat.mod_eq_of_lt, ← Nat.shiftLeft_add_eq_or_of_lt, Nat.shiftLeft_eq]
  · omega
  · rw [Nat.shiftLeft_eq]; omega

/-- The words of a block, summed without a bound. -/
theorem wordSum_read (m : Mem) (a : ℕ) : ∀ k,
    wordSum (m.read a (2 * (k + 1))) = wordSum (m.read a (2 * k)) + (word m (a + 2 * k)).toNat := by
  intro k
  rw [show 2 * (k + 1) = 2 * k + 2 by ring, Mem.read_add, wordSum_append _ _ (by simp),
    word_toNat]
  simp [Mem.read_cons, wordSum]

/-- The loop of `ip_checksum` adds the words of its block. -/
theorem loop_toNat (m : Mem) (a : ℕ) (r : UInt32) : ∀ k,
    r.toNat + wordSum (m.read a (2 * k)) < 2 ^ 32 →
    ((List.range k).foldl (fun r i => r + word m (a + 2 * i)) r).toNat =
      r.toNat + wordSum (m.read a (2 * k))
  | 0, _ => by simp [wordSum]
  | k + 1, h => by
    rw [wordSum_read] at h ⊢
    rw [List.range_succ, List.foldl_append, List.foldl_cons, List.foldl_nil, UInt32.toNat_add,
      loop_toNat m a r k (by omega), Nat.mod_eq_of_lt (by omega)]
    omega

/-- One round of the overflow loop. -/
theorem round_toNat (r : UInt32) :
    ((r &&& (0xffff : UInt32)) + (r >>> 16)).toNat = r.toNat % 65536 + r.toNat / 65536 := by
  have h := r.toNat_lt
  have h16 : (16 : UInt32).toNat % 32 = 16 := rfl
  have hand : (r &&& (0xffff : UInt32)).toNat = r.toNat % 65536 := by
    rw [UInt32.toNat_and, show (0xffff : UInt32).toNat = 2 ^ 16 - 1 by rfl,
      Nat.and_two_pow_sub_one_eq_mod]
  have hshr : (r >>> 16).toNat = r.toNat / 65536 := by
    rw [UInt32.toNat_shiftRight, h16, Nat.shiftRight_eq_div_pow]
  rw [UInt32.toNat_add, hand, hshr]
  omega

theorem shift_eq_zero_iff (r : UInt32) : r >>> 16 = 0 ↔ r.toNat < 65536 := by
  have h16 : (16 : UInt32).toNat % 32 = 16 := rfl
  rw [← UInt32.toNat_inj, UInt32.toNat_shiftRight, h16, Nat.shiftRight_eq_div_pow]
  simp only [UInt32.toNat_zero]
  omega

theorem addOverflows_of_lt {r : UInt32} (h : r.toNat < 65536) (k : ℕ) : addOverflows k r = r := by
  cases k with
  | zero => rfl
  | succ k => rw [addOverflows, if_pos ((shift_eq_zero_iff r).mpr h)]

theorem addOverflows_succ (k : ℕ) (r : UInt32) :
    addOverflows (k + 1) r =
      if r.toNat < 65536 then r else addOverflows k ((r &&& (0xffff : UInt32)) + (r >>> 16)) := by
  simp only [addOverflows, shift_eq_zero_iff]

/-- The overflow loop ends within two rounds, on the residue of its input. -/
theorem addOverflows_toNat (k : ℕ) (r : UInt32) :
    (addOverflows (k + 2) r).toNat = residue r.toNat := by
  have h := r.toNat_lt
  have h1 := round_toNat r
  rw [addOverflows_succ]
  split_ifs with h0
  · rw [residue_of_le (by omega)]
  · rw [← residue_carry, ← h1]
    generalize (r &&& (0xffff : UInt32)) + (r >>> 16) = r1 at h1 ⊢
    have h2 := round_toNat r1
    rw [addOverflows_succ]
    split_ifs with h3
    · rw [residue_of_le (by omega)]
    · rw [addOverflows_of_lt (by omega), h2, ← residue_carry r1.toNat, residue_of_le (by omega)]

/-- Without the final complement: the one's-complement sum of `r` and the block. -/
theorem ipChecksum_sum (r : UInt32) (m : Mem) (a len : ℕ)
    (h : r.toNat + wordSum (m.read a (2 * (len / 2))) < 2 ^ 32) :
    (ipChecksum r m a len false).toNat = residue (r.toNat + wordSum (m.read a (2 * (len / 2)))) := by
  have hle := residue_le (r.toNat + wordSum (m.read a (2 * (len / 2))))
  simp only [ipChecksum, Bool.false_eq_true, ↓reduceIte, UInt32.toNat_toUInt16]
  rw [addOverflows_toNat 30, loop_toNat m a r _ h, Nat.mod_eq_of_lt (by omega)]

/-- The complement within 16 bits. -/
theorem complement_toNat (r : UInt32) (h : r.toNat < 65536) :
    (~~~r &&& (0xffff : UInt32)).toNat = 65535 - r.toNat := by
  rw [UInt32.toNat_and, UInt32.toNat_not, show (0xffff : UInt32).toNat = 2 ^ 16 - 1 by rfl,
    Nat.and_two_pow_sub_one_eq_mod, UInt32.size]
  omega

/-- With the final complement: what completes the sum to `0xffff`. -/
theorem ipChecksum_complete (r : UInt32) (m : Mem) (a len : ℕ)
    (h : r.toNat + wordSum (m.read a (2 * (len / 2))) < 2 ^ 32) :
    (ipChecksum r m a len true).toNat =
      if 65535 - residue (r.toNat + wordSum (m.read a (2 * (len / 2)))) = 0 then 65535
      else 65535 - residue (r.toNat + wordSum (m.read a (2 * (len / 2)))) := by
  have hle := residue_le (r.toNat + wordSum (m.read a (2 * (len / 2))))
  simp only [ipChecksum, ↓reduceIte]
  rw [← loop_toNat m a r _ h, ← addOverflows_toNat 30] at hle ⊢
  generalize addOverflows (30 + 2) _ = x at hle ⊢
  have hx := complement_toNat x (by omega)
  have hz : ~~~x &&& (0xffff : UInt32) = 0 ↔ 65535 - x.toNat = 0 := by
    rw [← UInt32.toNat_inj, hx, UInt32.toNat_zero]
  simp only [hz]
  split_ifs with h0
  · rfl
  · rw [UInt32.toNat_toUInt16, hx, Nat.mod_eq_of_lt (by omega)]

end Eth
end PqcDtls
