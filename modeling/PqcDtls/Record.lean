/-
# Protected records on the wire

What one side puts in front of a protected record and the other reads back
(`dtls13.c`, `tls13.c`): the unified header with two bits of the epoch and the
low 16 bits of the sequence number, masked with bytes of the ciphertext
(`Dtls13RlAddCiphertextHeader`, `Dtls13EncryptRecordNumber`,
`Dtls13ParseUnifiedRecordLayer`), the content type and the padding behind the
plaintext (`BuildTls13Message`, `removeMsgInnerPadding`), and the full sequence
number from its low bits and the number that is expected next
(`Dtls13ReconstructSeqNumber`).

* `seqNumber_survives_iff`: for which numbers the receiver gets back the sender's.
* `parse_build`, `removeMsgInnerPadding_inner`: header, type and content come
  back as they were.
-/
import PqcDtls.Epochs
import PqcDtls.Lib.BigEndian

namespace PqcDtls
namespace Dtls13

open Lib

/-! ### The sequence number -/

/-- `Dtls13UnifiedHdrInfo`. -/
structure UnifiedHdrInfo where
  recordLength : ℕ
  seqLo : UInt8
  seqHi : UInt8
  seqHiPresent : Bool
  epochBits : BitVec 2
  deriving DecidableEq, Repr

/-- The low bits of the number in the header, and how many there are. -/
def UnifiedHdrInfo.seqLowBits (h : UnifiedHdrInfo) : BitVec 16 × ℕ :=
  if h.seqHiPresent then (h.seqHi.toBitVec.setWidth 16 <<< 8 ||| h.seqLo.toBitVec.setWidth 16, 16)
  else (h.seqLo.toBitVec.setWidth 16, 8)

/-- `w64Add32` and `w64Sub32` at their end: the new number, unless it wrapped. -/
def unlessWrap (wrap : Bool) (old new : BitVec 64) : BitVec 64 := if wrap then old else new

/-- `Dtls13ReconstructSeqNumber` for `bits` low bits (8 or 16) of the number. -/
def reconstructSeq (next : BitVec 64) (seqLowBits : BitVec 16) (bits : ℕ) : BitVec 64 :=
  let mask : BitVec 32 := BitVec.ofNat 32 (2 ^ bits - 1)
  let shift : BitVec 32 := 1#32 <<< bits
  let next32 := next.setWidth 32
  let expectedLowBits : BitVec 16 := (next32 &&& mask).setWidth 16
  let out32 := (next32 &&& ~~~mask) ||| seqLowBits.setWidth 32
  let out := (next &&& ~~~(0xffffffff#64)) ||| out32.setWidth 64
  if seqLowBits ≥ expectedLowBits then
    if seqLowBits.setWidth 32 - expectedLowBits.setWidth 32 > shift / 2 then
      unlessWrap (out < shift.setWidth 64) out (out - shift.setWidth 64)
    else out
  else
    if expectedLowBits.setWidth 32 - seqLowBits.setWidth 32 > shift / 2 then
      unlessWrap (out + shift.setWidth 64 < shift.setWidth 64) out (out + shift.setWidth 64)
    else out

/-- `Dtls13ReconstructSeqNumber`. -/
def dtls13ReconstructSeqNumber (e : Epoch) (hdrInfo : UnifiedHdrInfo) : BitVec 64 :=
  reconstructSeq e.nextPeerSeqNumber hdrInfo.seqLowBits.1 hdrInfo.seqLowBits.2

/-- Replacing the low `m` bits of a word. -/
theorem toNat_replace_low {w m : ℕ} (x y : BitVec w) (hm : m ≤ w) (hy : y.toNat < 2 ^ m) :
    ((x &&& ~~~(BitVec.ofNat w (2 ^ m - 1))) ||| y).toNat = x.toNat - x.toNat % 2 ^ m + y.toNat := by
  have hx : x.toNat - x.toNat % 2 ^ m = 2 ^ m * (x.toNat / 2 ^ m) := by
    have := Nat.div_add_mod x.toNat (2 ^ m)
    omega
  rw [hx]
  apply Nat.eq_of_testBit_eq
  intro j
  rw [Nat.testBit_two_pow_mul_add _ hy, Nat.testBit_div_two_pow]
  rw [BitVec.toNat_or, Nat.testBit_or, BitVec.toNat_and, Nat.testBit_and, BitVec.testBit_toNat,
    BitVec.testBit_toNat, BitVec.getLsbD_not, BitVec.getLsbD_ofNat, Nat.testBit_two_pow_sub_one]
  rcases Nat.lt_or_ge j m with hj | hj
  · have hjw : j < w := by omega
    simp [hj, hjw]
  · have hyj : y.toNat.testBit j = false :=
      Nat.testBit_lt_two_pow (lt_of_lt_of_le hy (Nat.pow_le_pow_right (by decide) hj))
    have hjm : j - m + m = j := by omega
    rcases Nat.lt_or_ge j w with hjw | hjw
    · simp [Nat.not_lt.mpr hj, hjw, hyj, hjm, BitVec.testBit_toNat]
    · simp [Nat.not_lt.mpr hj, hyj, hjm, BitVec.testBit_toNat, BitVec.getLsbD_of_ge x j hjw]

/-- The number that keeps the high part of the expected one. -/
theorem reconstructSeq_out (next : BitVec 64) (low : BitVec 16) {bits : ℕ} (hb : bits ≤ 16)
    (hlow : low.toNat < 2 ^ bits) :
    ((next &&& ~~~(0xffffffff#64)) ||| ((next.setWidth 32 &&& ~~~(BitVec.ofNat 32 (2 ^ bits - 1))) |||
      low.setWidth 32).setWidth 64).toNat = next.toNat - next.toNat % 2 ^ bits + low.toNat := by
  have hlow32 : (low.setWidth 32).toNat = low.toNat := by
    rw [BitVec.toNat_setWidth]
    exact Nat.mod_eq_of_lt (lt_trans low.isLt (by decide))
  have h32 := toNat_replace_low (next.setWidth 32) (low.setWidth 32) (show bits ≤ 32 by omega) (by omega)
  have hdvd : 2 ^ bits ∣ 2 ^ 32 := Nat.pow_dvd_pow 2 (by omega)
  rw [hlow32, BitVec.toNat_setWidth, Nat.mod_mod_of_dvd _ hdvd] at h32
  have h64 : (((next.setWidth 32 &&& ~~~(BitVec.ofNat 32 (2 ^ bits - 1))) ||| low.setWidth 32).setWidth 64).toNat =
      next.toNat % 2 ^ 32 - next.toNat % 2 ^ bits + low.toNat := by
    rw [BitVec.toNat_setWidth, h32]
    apply Nat.mod_eq_of_lt
    rw [← h32]
    exact lt_trans (BitVec.isLt _) (by decide)
  have h := toNat_replace_low next (((next.setWidth 32 &&& ~~~(BitVec.ofNat 32 (2 ^ bits - 1))) |||
    low.setWidth 32).setWidth 64) (show 32 ≤ 64 by decide) (by
      rw [h64, ← h32]
      exact BitVec.isLt _)
  have hmask : BitVec.ofNat 64 (2 ^ 32 - 1) = 0xffffffff#64 := by decide
  rw [hmask, h64] at h
  have hle1 : next.toNat % 2 ^ 32 ≤ next.toNat := Nat.mod_le _ _
  have hle2 : next.toNat % 2 ^ bits ≤ next.toNat % 2 ^ 32 := by
    rw [← Nat.mod_mod_of_dvd _ hdvd]
    exact Nat.mod_le _ _
  rw [h]
  omega

theorem expectedLowBits_toNat (next : BitVec 64) {bits : ℕ} (hb : bits ≤ 16) :
    ((next.setWidth 32 &&& BitVec.ofNat 32 (2 ^ bits - 1)).setWidth 16).toNat = next.toNat % 2 ^ bits := by
  have hpow : 2 ^ bits ≤ 2 ^ 16 := Nat.pow_le_pow_right (by decide) hb
  have hdvd : 2 ^ bits ∣ 2 ^ 32 := Nat.pow_dvd_pow 2 (by omega)
  have hmask : (BitVec.ofNat 32 (2 ^ bits - 1)).toNat = 2 ^ bits - 1 := by
    rw [BitVec.toNat_ofNat]
    exact Nat.mod_eq_of_lt (by omega)
  have hlt : next.toNat % 2 ^ bits < 2 ^ 16 :=
    lt_of_lt_of_le (Nat.mod_lt _ (Nat.two_pow_pos bits)) hpow
  rw [BitVec.toNat_setWidth, BitVec.toNat_and, hmask, Nat.and_two_pow_sub_one_eq_mod, BitVec.toNat_setWidth,
    Nat.mod_mod_of_dvd _ hdvd, Nat.mod_eq_of_lt hlt]

/-- The reconstruction in numbers: the candidate in the block of the expected
number, moved by one block when it is more than half a block away, unless that
leaves the 64-bit numbers. -/
theorem reconstructSeq_toNat (next : BitVec 64) (low : BitVec 16) {bits : ℕ} (hb : bits ≤ 16)
    (hlow : low.toNat < 2 ^ bits) :
    (reconstructSeq next low bits).toNat =
      let N := next.toNat
      let M := 2 ^ bits
      let c := N - N % M + low.toNat
      if N % M ≤ low.toNat then
        if M / 2 < low.toNat - N % M then (if c < M then c else c - M) else c
      else if M / 2 < N % M - low.toNat then (if c + M < 2 ^ 64 then c + M else c) else c := by
  have hpow : 2 ^ bits ≤ 2 ^ 16 := Nat.pow_le_pow_right (by decide) hb
  have hout := reconstructSeq_out next low hb hlow
  have hexp := expectedLowBits_toNat next hb
  have hshift : (1#32 <<< bits).toNat = 2 ^ bits := by
    rw [BitVec.toNat_shiftLeft, Nat.shiftLeft_eq]
    show 1 * 2 ^ bits % 2 ^ 32 = 2 ^ bits
    rw [Nat.one_mul]
    exact Nat.mod_eq_of_lt (by omega)
  have hhalf : (1#32 <<< bits / 2).toNat = 2 ^ bits / 2 := by
    rw [BitVec.toNat_udiv, hshift]
    rfl
  have hshift64 : ((1#32 <<< bits).setWidth 64).toNat = 2 ^ bits := by
    rw [BitVec.toNat_setWidth, hshift]
    exact Nat.mod_eq_of_lt (by omega)
  have hw : ∀ x : BitVec 16, (x.setWidth 32).toNat = x.toNat := by
    intro x
    rw [BitVec.toNat_setWidth]
    exact Nat.mod_eq_of_lt (lt_trans x.isLt (by decide))
  unfold reconstructSeq
  dsimp only
  generalize hO : (next &&& ~~~(0xffffffff#64)) ||| ((next.setWidth 32 &&& ~~~(BitVec.ofNat 32 (2 ^ bits - 1))) |||
      low.setWidth 32).setWidth 64 = out at hout ⊢
  generalize hE : (next.setWidth 32 &&& BitVec.ofNat 32 (2 ^ bits - 1)).setWidth 16 = ex at hexp ⊢
  have hsub : ∀ x y : BitVec 16, y.toNat ≤ x.toNat →
      (x.setWidth 32 - y.setWidth 32).toNat = x.toNat - y.toNat := by
    intro x y hle
    rw [BitVec.toNat_sub_of_le (BitVec.le_def.mpr (by rw [hw, hw]; exact hle)), hw, hw]
  have hisLt := out.isLt
  rw [← hout, ← hexp]
  simp only [ge_iff_le, gt_iff_lt, BitVec.le_def, BitVec.lt_def, hhalf, unlessWrap, hshift64, decide_eq_true_eq]
  split
  · next hle =>
    rw [hsub low ex hle]
    split
    · split
      · rfl
      · next hM =>
        rw [BitVec.toNat_sub_of_le, hshift64]
        rw [BitVec.le_def, hshift64]
        omega
    · rfl
  · next hlt =>
    rw [hsub ex low (by omega)]
    split
    · rw [BitVec.toNat_add, hshift64]
      rcases Nat.lt_or_ge (out.toNat + 2 ^ bits) (2 ^ 64) with hM | hM
      · rw [Nat.mod_eq_of_lt hM, if_neg (by omega), if_pos hM, BitVec.toNat_add, hshift64, Nat.mod_eq_of_lt hM]
      · have hmod : (out.toNat + 2 ^ bits) % 2 ^ 64 = out.toNat + 2 ^ bits - 2 ^ 64 := by
          rw [Nat.mod_eq_sub_mod hM, Nat.mod_eq_of_lt (by omega)]
        rw [hmod, if_pos (by omega), if_neg (by omega)]
    · rfl

/-- The numbers `s` that the receiver gets back from their low bits while it
expects `N`, in blocks of `M`: those less than half a block away, one of the two
that are exactly half a block away, and at the two ends of the number space all
of the block that lie on the inner side. -/
def Recoverable (M N s : ℕ) : Prop :=
  (s ≤ N + M / 2 ∧ N ≤ s + M / 2 ∧ (s = N + M / 2 → N % M < M / 2) ∧ (N = s + M / 2 → M / 2 ≤ N % M)) ∨
    (N ≤ s ∧ s < M) ∨ (s ≤ N ∧ 2 ^ 64 ≤ s + M)

instance (M N s : ℕ) : Decidable (Recoverable M N s) := by
  unfold Recoverable
  infer_instance

/-- The receiver reconstructs the sender's number from its low bits exactly when
it is recoverable from the number that is expected next. -/
theorem reconstructSeq_eq_iff (next seq : BitVec 64) (low : BitVec 16) {bits : ℕ} (hb : bits = 8 ∨ bits = 16)
    (hlow : low.toNat = seq.toNat % 2 ^ bits) :
    reconstructSeq next low bits = seq ↔ Recoverable (2 ^ bits) next.toNat seq.toNat := by
  have hseq := seq.isLt
  have hnext := next.isLt
  rw [← BitVec.toNat_inj, reconstructSeq_toNat next low (by omega) (by
    rw [hlow]
    exact Nat.mod_lt _ (Nat.two_pow_pos bits)), hlow]
  unfold Recoverable
  generalize next.toNat = N at hnext ⊢
  generalize seq.toNat = s at hseq ⊢
  rcases hb with rfl | rfl <;> norm_num only <;> split_ifs <;> omega

/-- The number in a header, in its 16-bit or its 8-bit form. -/
def headerOfSeq (seq : BitVec 64) (seqHiPresent : Bool) (recordLength : ℕ) (epochBits : BitVec 2) : UnifiedHdrInfo :=
  ⟨recordLength, UInt8.ofBitVec (seq.setWidth 8), UInt8.ofBitVec ((seq >>> 8).setWidth 8), seqHiPresent, epochBits⟩

theorem seqLowBits_headerOfSeq (seq : BitVec 64) (present : Bool) (length : ℕ) (epochBits : BitVec 2) :
    (headerOfSeq seq present length epochBits).seqLowBits.1.toNat =
      seq.toNat % 2 ^ (if present then 16 else 8) := by
  cases present with
  | false =>
    show ((seq.setWidth 8).setWidth 16).toNat = seq.toNat % 2 ^ 8
    rw [BitVec.toNat_setWidth, BitVec.toNat_setWidth]
    exact Nat.mod_eq_of_lt (lt_trans (Nat.mod_lt _ (by decide)) (by decide))
  | true =>
    have hjoin : ((seq >>> 8).setWidth 8).setWidth 16 <<< 8 ||| (seq.setWidth 8).setWidth 16 = seq.setWidth 16 := by
      apply BitVec.eq_of_getLsbD_eq
      intro i hi
      simp only [BitVec.getLsbD_or, BitVec.getLsbD_shiftLeft, BitVec.getLsbD_setWidth, BitVec.getLsbD_ushiftRight]
      rcases Nat.lt_or_ge i 8 with h8 | h8
      · simp [h8, hi]
      · have h1 : i - 8 < 8 := by omega
        have h2 : i - 8 < 16 := by omega
        have h3 : 8 + (i - 8) = i := by omega
        simp [Nat.not_lt.mpr h8, hi, h1, h2, h3]
    show (((seq >>> 8).setWidth 8).setWidth 16 <<< 8 ||| (seq.setWidth 8).setWidth 16).toNat = seq.toNat % 2 ^ 16
    rw [hjoin, BitVec.toNat_setWidth]

/-- **A sequence number survives the header** exactly when it is recoverable: for
every number, every number the receiver may expect, and both forms of the
header. -/
theorem seqNumber_survives_iff (e : Epoch) (seq : BitVec 64) (present : Bool) (length : ℕ) (epochBits : BitVec 2) :
    dtls13ReconstructSeqNumber e (headerOfSeq seq present length epochBits) = seq ↔
      Recoverable (2 ^ (if present then 16 else 8)) e.nextPeerSeqNumber.toNat seq.toNat := by
  have hbits : (headerOfSeq seq present length epochBits).seqLowBits.2 = if present then 16 else 8 := by
    cases present <;> rfl
  unfold dtls13ReconstructSeqNumber
  rw [hbits]
  apply reconstructSeq_eq_iff
  · cases present
    · exact Or.inl rfl
    · exact Or.inr rfl
  · exact seqLowBits_headerOfSeq seq present length epochBits

/-! ### The unified header -/

/-- `DTLS13_FIXED_BITS`, `DTLS13_SEQ_LEN_BIT` and `DTLS13_LEN_BIT`. -/
def FIXED_BITS : UInt8 := 0x20
def SEQ_LEN_BIT : UInt8 := 0x08
def LEN_BIT : UInt8 := 0x04

/-- `DTLS13_UNIFIED_HEADER_SIZE`. -/
def UNIFIED_HEADER_SIZE : ℕ := 5

/-- `DTLS13_RN_MASK_SIZE` and `DTLS13_MIN_CIPHERTEXT`. -/
def RN_MASK_SIZE : ℕ := 16

/-- `Dtls13IsUnifiedHeader`; the mask is `0x111 << 5`, of which a byte has one
bit. -/
def dtls13IsUnifiedHeader (hdrFirstByte : UInt8) : Bool :=
  if hdrFirstByte = 21 ∨ hdrFirstByte = 22 ∨ hdrFirstByte = 26 then false
  else hdrFirstByte.toNat &&& 0x111 <<< 5 == FIXED_BITS.toNat

/-- `Dtls13GetUnifiedHeaderSize`. -/
def dtls13GetUnifiedHeaderSize (input : UInt8) : ℕ :=
  2 + (if input &&& SEQ_LEN_BIT ≠ 0 then 1 else 0) + (if input &&& LEN_BIT ≠ 0 then 2 else 0)

/-- `c16toa`. -/
def c16toa (v : BitVec 16) : List UInt8 :=
  [UInt8.ofBitVec ((v >>> 8).setWidth 8), UInt8.ofBitVec (v.setWidth 8)]

/-- `ato16`. -/
def ato16 (hi lo : UInt8) : BitVec 16 := hi.toBitVec.setWidth 16 <<< 8 ||| lo.toBitVec.setWidth 16

/-- What the record layer uses of the ciphers: the AEAD of an epoch's keys, by
epoch and sequence number, and the mask that `Dtls13GetRnMask` derives from the
first bytes of the ciphertext. -/
structure RecordCipher where
  /-- `aead_mac_size`. -/
  macSize : ℕ
  /-- `EncryptTls13`: epoch, sequence number, header and plaintext. -/
  encrypt : BitVec 64 → BitVec 64 → List UInt8 → List UInt8 → List UInt8
  /-- `DecryptTls13`, which may refuse. -/
  decrypt : BitVec 64 → BitVec 64 → List UInt8 → List UInt8 → Option (List UInt8)
  /-- `Dtls13GetRnMask`. -/
  rnMask : BitVec 64 → List UInt8 → ℕ → UInt8

/-- What the record layer relies on of the AEAD: the length of its ciphertexts, that
it decrypts what it encrypted, and that it refuses that under another sequence
number. -/
structure RecordCipher.Sound (c : RecordCipher) : Prop where
  length : ∀ n q h p, (c.encrypt n q h p).length = p.length + c.macSize
  decrypt_encrypt : ∀ n q h p, c.decrypt n q h (c.encrypt n q h p) = some p
  refuses : ∀ n q q' h h' p, q ≠ q' → c.decrypt n q h (c.encrypt n q' h' p) = none

/-- A stand-in for the AEAD that does not hide the plaintext: its tag is the
epoch and the sequence number. -/
def plainCipher : RecordCipher where
  macSize := 16
  encrypt n q _ p := p ++ (bigEndian 8 n.toNat ++ bigEndian 8 q.toNat)
  decrypt n q _ ct :=
    if ct.drop (ct.length - 16) = bigEndian 8 n.toNat ++ bigEndian 8 q.toNat then some (ct.take (ct.length - 16))
    else none
  rnMask _ ct i := ct.getD i 0

theorem plainCipher_sound : plainCipher.Sound where
  length n q h p := by simp [plainCipher]
  decrypt_encrypt n q h p := by
    have hlen : (p ++ (bigEndian 8 n.toNat ++ bigEndian 8 q.toNat)).length - 16 = p.length := by simp
    simp only [plainCipher, hlen, List.drop_left', List.take_left', if_true]
  refuses n q q' h h' p hne := by
    have hlen : (p ++ (bigEndian 8 n.toNat ++ bigEndian 8 q'.toNat)).length - 16 = p.length := by simp
    have htag : bigEndian 8 n.toNat ++ bigEndian 8 q'.toNat ≠ bigEndian 8 n.toNat ++ bigEndian 8 q.toNat := by
      intro heq
      apply hne
      apply BitVec.eq_of_toNat_eq
      exact bigEndian_inj q.isLt q'.isLt (List.append_cancel_left heq).symm
    simp only [plainCipher, hlen, List.drop_left', htag, if_false]

/-- `Dtls13RlAddCiphertextHeader`. -/
def dtls13RlAddCiphertextHeader (e : Epoch) (length : BitVec 16) : List UInt8 :=
  let flags := FIXED_BITS ||| UInt8.ofBitVec ((dtls13GetEpochBits e.epochNumber).setWidth 8) |||
    SEQ_LEN_BIT ||| LEN_BIT
  flags :: (c16toa (e.nextSeqNumber.setWidth 16) ++ c16toa length)

/-- `Dtls13EncryptDecryptRecordNumber`: `xorbuf` with the mask. -/
def xorMask (mask : ℕ → UInt8) (seq : List UInt8) : List UInt8 := seq.mapIdx fun i b => b ^^^ mask i

/-- `Dtls13EncryptRecordNumber` on a whole record (it takes the length of the
number from the length bit); `none` is `BUFFER_ERROR`. -/
def dtls13EncryptRecordNumber (c : RecordCipher) (epoch : BitVec 64) (record : List UInt8) : Option (List UInt8) :=
  if record.length % 2 ^ 16 < UNIFIED_HEADER_SIZE + RN_MASK_SIZE then none
  else
    let hdr := record.headD 0
    let seqLength := if hdr &&& LEN_BIT ≠ 0 then 2 else 1
    let hdrLength := 1 + seqLength + (if hdr &&& LEN_BIT ≠ 0 then 2 else 0)
    let mask := c.rnMask epoch ((record.drop hdrLength).take RN_MASK_SIZE)
    some (record.take 1 ++ xorMask mask ((record.drop 1).take seqLength) ++ record.drop (1 + seqLength))

/-- `BuildTls13Message` in an epoch: the record, or nothing when it does not fit
the output, and the epoch with its next number. -/
def buildTls13Message (c : RecordCipher) (e : Epoch) (outSz : ℕ) (input : List UInt8) (type : UInt8) :
    Option (List UInt8) × Epoch :=
  let sz := UNIFIED_HEADER_SIZE + input.length + 1 + c.macSize
  let paddingSz := UNIFIED_HEADER_SIZE + RN_MASK_SIZE - sz
  let sz := sz + paddingSz
  if outSz < sz then (none, e)
  else
    let header := dtls13RlAddCiphertextHeader e (BitVec.ofNat 16 (sz - UNIFIED_HEADER_SIZE))
    let inner := input ++ type :: List.replicate paddingSz 0
    let record := header ++ c.encrypt e.epochNumber e.nextSeqNumber header inner
    (dtls13EncryptRecordNumber c e.epochNumber record, { e with nextSeqNumber := e.nextSeqNumber + 1 })

/-- What the record layer makes of a record it does not take. -/
inductive RecordError where
  | badFuncArg
  | bufferError
  | lengthError
  | sequenceError
  | badState
  | partialRecordRead
  deriving DecidableEq, Repr

/-- `Dtls13ParseUnifiedRecordLayer`: the header's fields, and the header with
the number in the clear. -/
def dtls13ParseUnifiedRecordLayer (c : RecordCipher) (epoch : BitVec 64) (input : List UInt8) :
    Except RecordError (UnifiedHdrInfo × List UInt8) :=
  let inputSize := input.length % 2 ^ 16
  if inputSize < 1 then .error .badFuncArg
  else
    let flags := input.headD 0
    let seqLen := if flags &&& SEQ_LEN_BIT ≠ 0 then 2 else 1
    let hasLength := flags &&& LEN_BIT ≠ 0
    let idx := 1 + seqLen
    if inputSize < idx then .error .bufferError
    else if hasLength ∧ inputSize < idx + 2 then .error .bufferError
    else
      let recordLength :=
        if hasLength then (ato16 (input.getD idx 0) (input.getD (idx + 1) 0)).toNat else inputSize - idx
      let idx := if hasLength then idx + 2 else idx
      if recordLength < RN_MASK_SIZE then .error .lengthError
      else if inputSize < idx + RN_MASK_SIZE then .error .bufferError
      else
        let mask := c.rnMask epoch ((input.drop idx).take RN_MASK_SIZE)
        let seqNum := xorMask mask ((input.drop 1).take seqLen)
        let header := input.take 1 ++ seqNum ++ (input.take idx).drop (1 + seqLen)
        .ok (⟨recordLength, if seqLen = 2 then seqNum.getD 1 0 else seqNum.getD 0 0, seqNum.getD 0 0,
          seqLen = 2, flags.toBitVec.setWidth 2⟩, header)

/-- The loop of `removeMsgInnerPadding`: the last place from `i` down that is not
zero. -/
def lastNonzero (inner : List UInt8) : ℕ → ℕ
  | 0 => 0
  | i + 1 => if inner.getD (i + 1) 0 ≠ 0 then i + 1 else lastNonzero inner i

/-- `removeMsgInnerPadding`: the content type and the content of a plaintext. -/
def removeMsgInnerPadding (inner : List UInt8) : Option (UInt8 × List UInt8) :=
  if inner = [] then none
  else
    let i := lastNonzero inner (inner.length - 1)
    some (inner.getD i 0, inner.take i)

/-! ### Header and content come back -/

/-- Behind its last nonzero byte a plaintext is skipped. -/
theorem lastNonzero_eq {inner : List UInt8} {p : ℕ} (hp : inner.getD p 0 ≠ 0) :
    ∀ k, (∀ j, p < j → inner.getD j 0 = 0) → lastNonzero inner (p + k) = p
  | 0, _ => by
    cases p with
    | zero => rfl
    | succ p => exact if_pos hp
  | k + 1, hz => by
    have hzero : ¬ inner.getD (p + k + 1) 0 ≠ 0 := by
      rw [hz _ (by omega)]
      simp
    calc lastNonzero inner (p + (k + 1)) = lastNonzero inner (p + k) := if_neg hzero
      _ = p := lastNonzero_eq hp k hz

/-- The content and its type come back from behind the padding. -/
theorem removeMsgInnerPadding_inner (input : List UInt8) {type : UInt8} (ht : type ≠ 0) (k : ℕ) :
    removeMsgInnerPadding (input ++ type :: List.replicate k 0) = some (type, input) := by
  have hlen : (input ++ type :: List.replicate k 0).length - 1 = input.length + k := by
    simp
  have htype : (input ++ type :: List.replicate k 0).getD input.length 0 = type := by
    simp
  have hpad : ∀ j, input.length < j → (input ++ type :: List.replicate k 0).getD j 0 = 0 := by
    intro j hj
    obtain ⟨m, rfl⟩ := Nat.exists_eq_add_of_lt hj
    have hsub : input.length + m + 1 - input.length = m + 1 := by omega
    rw [List.getD_eq_getElem?_getD, List.getElem?_append_right (by omega), hsub, List.getElem?_cons_succ,
      List.getElem?_replicate]
    split <;> rfl
  unfold removeMsgInnerPadding
  rw [if_neg (by simp), hlen, lastNonzero_eq (by rw [htype]; exact ht) k hpad]
  simp

theorem ato16_c16toa (v : BitVec 16) :
    ato16 (UInt8.ofBitVec ((v >>> 8).setWidth 8)) (UInt8.ofBitVec (v.setWidth 8)) = v := by
  unfold ato16
  apply BitVec.eq_of_getLsbD_eq
  intro i hi
  simp only [BitVec.getLsbD_or, BitVec.getLsbD_shiftLeft, BitVec.getLsbD_setWidth, BitVec.getLsbD_ushiftRight]
  rcases Nat.lt_or_ge i 8 with h8 | h8
  · simp [h8, hi]
  · have h1 : i - 8 < 8 := by omega
    have h2 : i - 8 < 16 := by omega
    have h3 : 8 + (i - 8) = i := by omega
    simp [Nat.not_lt.mpr h8, hi, h1, h2, h3]

/-- The flags of a header are those of a unified header, say that the number has
16 bits and that the length is there, and give back the bits of the epoch. -/
theorem headerFlags_spec (b : BitVec 2) :
    let flags := FIXED_BITS ||| UInt8.ofBitVec (b.setWidth 8) ||| SEQ_LEN_BIT ||| LEN_BIT
    flags &&& SEQ_LEN_BIT ≠ 0 ∧ flags &&& LEN_BIT ≠ 0 ∧ flags.toBitVec.setWidth 2 = b ∧
      dtls13IsUnifiedHeader flags = true ∧ dtls13GetUnifiedHeaderSize flags = UNIFIED_HEADER_SIZE := by
  have h4 := b.isLt
  have : b = 0 ∨ b = 1 ∨ b = 2 ∨ b = 3 := by
    have h : b.toNat = 0 ∨ b.toNat = 1 ∨ b.toNat = 2 ∨ b.toNat = 3 := by omega
    rcases h with h | h | h | h
    · exact Or.inl (BitVec.eq_of_toNat_eq h)
    · exact Or.inr (Or.inl (BitVec.eq_of_toNat_eq h))
    · exact Or.inr (Or.inr (Or.inl (BitVec.eq_of_toNat_eq h)))
    · exact Or.inr (Or.inr (Or.inr (BitVec.eq_of_toNat_eq h)))
  rcases this with rfl | rfl | rfl | rfl <;> decide

section Five

variable (c : RecordCipher) (epoch : BitVec 64) {flags : UInt8} (a b l1 l0 : UInt8) {ct : List UInt8}

/-- Masking the number of a record with a header of five bytes. -/
theorem encryptRecordNumber_five (hlen : flags &&& LEN_BIT ≠ 0) (hmin : RN_MASK_SIZE ≤ ct.length)
    (hmax : UNIFIED_HEADER_SIZE + ct.length < 2 ^ 16) :
    dtls13EncryptRecordNumber c epoch ([flags, a, b, l1, l0] ++ ct) =
      some ([flags, a ^^^ c.rnMask epoch (ct.take 16) 0, b ^^^ c.rnMask epoch (ct.take 16) 1, l1, l0] ++ ct) := by
  have hmin16 : 16 ≤ ct.length := hmin
  have hmax16 : 5 + ct.length < 2 ^ 16 := hmax
  have hsize : ¬ ([flags, a, b, l1, l0] ++ ct).length % 2 ^ 16 < UNIFIED_HEADER_SIZE + RN_MASK_SIZE := by
    show ¬ (ct.length + 5) % 2 ^ 16 < 5 + 16
    rw [Nat.mod_eq_of_lt (by omega)]
    omega
  unfold dtls13EncryptRecordNumber
  refine (if_neg hsize).trans ?_
  simp [hlen, xorMask, RN_MASK_SIZE]

/-- Parsing a record with a header of five bytes. -/
theorem parseUnifiedRecordLayer_five (hseq : flags &&& SEQ_LEN_BIT ≠ 0) (hlen : flags &&& LEN_BIT ≠ 0)
    (hmin : RN_MASK_SIZE ≤ ct.length) (hmax : UNIFIED_HEADER_SIZE + ct.length < 2 ^ 16)
    (hl : (ato16 l1 l0).toNat = ct.length) :
    dtls13ParseUnifiedRecordLayer c epoch ([flags, a, b, l1, l0] ++ ct) =
      .ok (⟨ct.length, b ^^^ c.rnMask epoch (ct.take 16) 1, a ^^^ c.rnMask epoch (ct.take 16) 0, true,
        flags.toBitVec.setWidth 2⟩,
        [flags, a ^^^ c.rnMask epoch (ct.take 16) 0, b ^^^ c.rnMask epoch (ct.take 16) 1, l1, l0]) := by
  have hmin16 : 16 ≤ ct.length := hmin
  have hmax16 : 5 + ct.length < 2 ^ 16 := hmax
  have hin : ([flags, a, b, l1, l0] ++ ct).length % 2 ^ 16 = 5 + ct.length := by
    show (ct.length + 5) % 2 ^ 16 = 5 + ct.length
    rw [Nat.mod_eq_of_lt (by omega), Nat.add_comm]
  unfold dtls13ParseUnifiedRecordLayer
  rw [hin]
  have h1 : ¬ 5 + ct.length < 1 := by omega
  have h3 : ¬ 5 + ct.length < 3 := by omega
  have h5 : ¬ 5 + ct.length < 5 := by omega
  have h21 : ¬ 5 + ct.length < 5 + 16 := by omega
  have h16 : ¬ ct.length < 16 := by omega
  simp [hseq, hlen, hl, h1, h3, h5, h21, h16, RN_MASK_SIZE, xorMask]

end Five

/-- A record as it is on the wire: a unified header in front of the ciphertext,
of which the other side parses what was put in, the bits of the epoch, the 16
low bits of the number and the length, and the header as it was before the
number was masked. -/
structure IsRecordOf (c : RecordCipher) (e : Epoch) (ct record : List UInt8) : Prop where
  length : record.length = UNIFIED_HEADER_SIZE + ct.length
  body : record.drop UNIFIED_HEADER_SIZE = ct
  unified : dtls13IsUnifiedHeader (record.headD 0) = true
  headerSize : dtls13GetUnifiedHeaderSize (record.headD 0) = UNIFIED_HEADER_SIZE
  epochBits : (record.headD 0).toBitVec.setWidth 2 = dtls13GetEpochBits e.epochNumber
  parse : dtls13ParseUnifiedRecordLayer c e.epochNumber record =
    .ok (⟨ct.length, UInt8.ofBitVec ((e.nextSeqNumber.setWidth 16).setWidth 8),
      UInt8.ofBitVec ((e.nextSeqNumber.setWidth 16 >>> 8).setWidth 8), true,
      dtls13GetEpochBits e.epochNumber⟩, dtls13RlAddCiphertextHeader e (BitVec.ofNat 16 ct.length))

/-- What is built is parsed back. -/
theorem parse_build (c : RecordCipher) (e : Epoch) (ct : List UInt8) (hmin : RN_MASK_SIZE ≤ ct.length)
    (hmax : UNIFIED_HEADER_SIZE + ct.length < 2 ^ 16) :
    ∃ record, dtls13EncryptRecordNumber c e.epochNumber
        (dtls13RlAddCiphertextHeader e (BitVec.ofNat 16 ct.length) ++ ct) = some record ∧
      IsRecordOf c e ct record := by
  obtain ⟨hseq, hlen, hbits, huni, hhdr⟩ := headerFlags_spec (dtls13GetEpochBits e.epochNumber)
  have hmax16 : 5 + ct.length < 2 ^ 16 := hmax
  have hl : (ato16 (UInt8.ofBitVec ((BitVec.ofNat 16 ct.length >>> 8).setWidth 8))
      (UInt8.ofBitVec ((BitVec.ofNat 16 ct.length).setWidth 8))).toNat = ct.length := by
    rw [ato16_c16toa, BitVec.toNat_ofNat]
    exact Nat.mod_eq_of_lt (by omega)
  refine ⟨_, encryptRecordNumber_five c e.epochNumber _ _ _ _ hlen hmin hmax, ?_, rfl, huni, hhdr, hbits, ?_⟩
  · show ct.length + 5 = 5 + ct.length
    exact Nat.add_comm _ _
  · have hx : ∀ a m : UInt8, a ^^^ m ^^^ m = a := by
      intro a m
      rw [UInt8.xor_assoc, UInt8.xor_self, UInt8.xor_zero]
    rw [parseUnifiedRecordLayer_five c e.epochNumber _ _ _ _ hseq hlen hmin hmax hl, hx, hx]
    exact congrArg (fun b => Except.ok (UnifiedHdrInfo.mk ct.length _ _ true b, _)) hbits

end Dtls13
end PqcDtls
