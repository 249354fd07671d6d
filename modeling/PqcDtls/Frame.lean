/-
# UDP frames as byte strings

What a frame on the wire is, without the code that builds or reads it: the
headers as lists of bytes, and what a receiver finds in a frame that carries a
payload (`IsUdpFrame`): the addresses and ports, both length fields, an IP and
a UDP checksum that verify, the payload, and the minimum frame length. A frame
made of the headers with the complemented sums in them, the payload, and any
padding up to 60 bytes is such a frame (`isUdpFrame_of_parts`).
-/
import PqcDtls.Checksum

namespace PqcDtls

open Lib

/-- The IPv4 header of a UDP packet with `len` bytes of payload. -/
def ipHeader (srcIp dstIp : UInt32) (len : ℕ) (ck : UInt16) : List UInt8 :=
  [0x45, 0] ++ be16 (UInt16.ofNat (len + 28)) ++ be16 0 ++ be16 0x4000 ++ [64, 0x11] ++ be16 ck ++
    be32 srcIp ++ be32 dstIp

def udpHeader (srcPort dstPort : UInt16) (len : ℕ) (ck : UInt16) : List UInt8 :=
  be16 srcPort ++ be16 dstPort ++ be16 (UInt16.ofNat (len + 8)) ++ be16 ck

/-- The pseudo header the UDP checksum starts from. -/
def pseudoHeader (srcIp dstIp : UInt32) (len : ℕ) : List UInt8 :=
  be32 srcIp ++ be32 dstIp ++ [0, 0x11] ++ be16 (UInt16.ofNat (len + 8))

def ethHeader (dst src : MacAddr) : List UInt8 := List.ofFn dst ++ List.ofFn src ++ be16 0x0800

/-- The `n` bytes of `f` from `off` on. -/
def slice (f : List UInt8) (off n : ℕ) : List UInt8 := (f.drop off).take n

/-- The 16-bit field of `f` at `off`. -/
def field16 (f : List UInt8) (off : ℕ) : ℕ := (f.getD off 0).toNat * 256 + (f.getD (off + 1) 0).toNat

/-- A frame that carries `payload` to `dst`, as a receiver finds it. -/
structure IsUdpFrame (f : List UInt8) (dst : MacAddr) (srcIp dstIp : UInt32) (srcPort dstPort : UInt16)
    (payload : List UInt8) : Prop where
  length : f.length = max 60 (payload.length + 42)
  destMac : slice f 0 6 = List.ofFn dst
  etherType : slice f 12 2 = be16 0x0800
  version : slice f 14 1 = [0x45]
  ipLength : field16 f 16 = payload.length + 28
  proto : slice f 23 1 = [0x11]
  srcIp : slice f 26 4 = be32 srcIp
  dstIp : slice f 30 4 = be32 dstIp
  ipChecksum : onesSum (slice f 14 20) = 0xffff
  srcPort : slice f 34 2 = be16 srcPort
  dstPort : slice f 36 2 = be16 dstPort
  udpLength : field16 f 38 = payload.length + 8
  udpChecksum :
    onesSum (slice f 26 8 ++ [0, 0x11] ++ slice f 38 2 ++ slice f 34 (payload.length + 8)) = 0xffff
  payload : slice f 42 payload.length = payload

/-! ### The sums -/

theorem length_ipHeader (a b : UInt32) (len : ℕ) (ck : UInt16) : (ipHeader a b len ck).length = 20 := rfl
theorem length_udpHeader (a b : UInt16) (len : ℕ) (ck : UInt16) : (udpHeader a b len ck).length = 8 := rfl
theorem length_pseudoHeader (a b : UInt32) (len : ℕ) : (pseudoHeader a b len).length = 12 := rfl
theorem length_ethHeader (a b : MacAddr) : (ethHeader a b).length = 14 := rfl

theorem zero_toNat : ((0 : UInt16) >>> 8).toUInt8.toNat = 0 ∧ (0 : UInt16).toUInt8.toNat = 0 := ⟨rfl, rfl⟩

/-- The checksum field adds its own value to the header's sum. -/
theorem wordSum_ipHeader (a b : UInt32) (len : ℕ) (ck : UInt16) :
    wordSum (ipHeader a b len ck) = wordSum (ipHeader a b len 0) + ck.toNat := by
  rw [← be16_toNat ck]
  simp only [ipHeader, be16, be32, List.cons_append, List.nil_append, wordSum, zero_toNat]
  ring

theorem wordSum_udpHeader (a b : UInt16) (len : ℕ) (ck : UInt16) :
    wordSum (udpHeader a b len ck) = wordSum (udpHeader a b len 0) + ck.toNat := by
  rw [← be16_toNat ck]
  simp only [udpHeader, be16, List.cons_append, List.nil_append, wordSum, zero_toNat]
  ring

/-- The complement of a sum, as `ip_checksum` stores it. -/
def complement (x : ℕ) : ℕ := if 65535 - residue x = 0 then 65535 else 65535 - residue x

/-- An IP header with the complement of its own sum in it verifies. -/
theorem onesSum_ipHeader {a b : UInt32} {len : ℕ} {ck : UInt16}
    (h : ck.toNat = complement (wordSum (ipHeader a b len 0))) :
    onesSum (ipHeader a b len ck) = 0xffff := by
  rw [onesSum_eq_residue, wordSum_ipHeader]
  exact residue_complement _ _ h

/-- A UDP header with the complement of the sum of the pseudo header, itself
and the payload verifies. -/
theorem onesSum_udp {a b : UInt32} {sp dp : UInt16} {payload : List UInt8} {ck : UInt16}
    (h : ck.toNat = complement (wordSum (pseudoHeader a b payload.length) +
      (wordSum (udpHeader sp dp payload.length 0) + wordSum payload))) :
    onesSum (pseudoHeader a b payload.length ++ (udpHeader sp dp payload.length ck ++ payload)) =
      0xffff := by
  rw [onesSum_eq_residue, wordSum_append _ _ (by rw [length_pseudoHeader]; decide),
    wordSum_append _ _ (by rw [length_udpHeader]; decide), wordSum_udpHeader,
    show ∀ x y z w : ℕ, x + (y + z + w) = x + (y + w) + z by intros; ring]
  exact residue_complement _ _ h

/-! ### A frame from its parts -/

theorem ofNat16_toNat {n : ℕ} (h : n < 65536) : (UInt16.ofNat n).toNat = n := by
  rw [UInt16.toNat_ofNat', Nat.mod_eq_of_lt (by omega)]

/-- **The headers, the payload and any padding make a UDP frame**, once the
checksum fields hold the complements of their sums. -/
theorem isUdpFrame_of_parts {dst src : MacAddr} {srcIp dstIp : UInt32} {sp dp ck ck' : UInt16}
    {payload pad : List UInt8} (hlen : payload.length < 65000)
    (hpad : pad.length = max 60 (payload.length + 42) - (payload.length + 42))
    (hck : ck.toNat = complement (wordSum (ipHeader srcIp dstIp payload.length 0)))
    (hck' : ck'.toNat = complement (wordSum (pseudoHeader srcIp dstIp payload.length) +
      (wordSum (udpHeader sp dp payload.length 0) + wordSum payload))) :
    IsUdpFrame (ethHeader dst src ++ ipHeader srcIp dstIp payload.length ck ++
      udpHeader sp dp payload.length ck' ++ payload ++ pad) dst srcIp dstIp sp dp payload := by
  have h1 := be16_toNat (UInt16.ofNat (payload.length + 28))
  have h2 := be16_toNat (UInt16.ofNat (payload.length + 8))
  rw [ofNat16_toNat (by omega)] at h1 h2
  have hudp : slice (ethHeader dst src ++ ipHeader srcIp dstIp payload.length ck ++
      udpHeader sp dp payload.length ck' ++ payload ++ pad) 34 (payload.length + 8) =
      udpHeader sp dp payload.length ck' ++ payload := by
    have hl : (ethHeader dst src ++ ipHeader srcIp dstIp payload.length ck).length = 34 := rfl
    have hr : (udpHeader sp dp payload.length ck' ++ payload).length = payload.length + 8 := by
      rw [List.length_append, length_udpHeader]; omega
    rw [slice, List.append_assoc, List.append_assoc, ← hl, List.drop_left, ← List.append_assoc, ← hr,
      List.take_left]
  refine ⟨?_, ?_, rfl, rfl, h1, rfl, rfl, rfl, ?_, rfl, rfl, h2, ?_, ?_⟩
  · simp only [List.length_append, length_ethHeader, length_ipHeader, length_udpHeader, hpad]
    omega
  · simp [slice, ethHeader]
  · exact onesSum_ipHeader hck
  · rw [hudp]
    exact onesSum_udp hck'
  · have hl : (ethHeader dst src ++ ipHeader srcIp dstIp payload.length ck ++
        udpHeader sp dp payload.length ck').length = 42 := rfl
    rw [slice, List.append_assoc, ← hl, List.drop_left, List.take_left]

end PqcDtls
