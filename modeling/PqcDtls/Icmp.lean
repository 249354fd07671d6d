/-
# Echo replies

What `process_icmp` answers to an echo request: the frame it builds in the transmit
slot, and whether a receiver of it finds the checksums right. The IP header always
verifies. The ICMP checksum is computed by `ip_checksum` over the words of the message,
and that leaves out the last byte of an odd payload, which `udp_send` pads and
`process_icmp` does not.

* `echo_reply_verifies_iff`: the reply to a whole request repeats its payload, and its
  ICMP checksum verifies exactly when the payload has an even number of bytes or ends
  with a zero.
* `echo_stays_in_slot_iff`: what is copied is decided by the IP length alone, so a frame
  that says more than 2034 there makes the reply leave its slot, and no other does.
-/
import PqcDtls.Lib.Excerpt
import PqcDtls.Arp

namespace PqcDtls

open Lib

variable (soc : Soc)

/-! ### The reply on the wire -/

/-- The IPv4 header of an ICMP packet with `len` bytes of payload, to the address in `dst`. -/
def icmpIpHeader (srcIp : UInt32) (dst : List UInt8) (len : ℕ) (ck : UInt16) : List UInt8 :=
  [0x45, 0] ++ be16 (UInt16.ofNat (len + 28)) ++ be16 0 ++ be16 0x4000 ++ [64, 1] ++ be16 ck ++ be32 srcIp ++ dst

/-- The header of an echo reply; `echoId` is the identifier and the sequence number. -/
def echoHeader (ck : UInt16) (echoId : List UInt8) : List UInt8 := [0, 0] ++ be16 ck ++ echoId

/-- The frame of an echo reply. -/
def echoFrame (dst src : MacAddr) (ip : UInt32) (peer : List UInt8) (len : ℕ) (ck ck' : UInt16)
    (echoId payload : List UInt8) : List UInt8 :=
  ethHeader dst src ++ icmpIpHeader ip peer len ck ++ (echoHeader ck' echoId ++ payload)

theorem wordSum_icmpIpHeader (a : UInt32) (dst : List UInt8) (len : ℕ) (ck : UInt16) :
    wordSum (icmpIpHeader a dst len ck) = wordSum (icmpIpHeader a dst len 0) + ck.toNat := by
  rw [← be16_toNat ck]
  simp only [icmpIpHeader, be16, be32, List.cons_append, List.nil_append, wordSum, zero_toNat]
  ring

theorem wordSum_echoHeader (ck : UInt16) (echoId rest : List UInt8) :
    wordSum (echoHeader ck echoId ++ rest) = wordSum (echoHeader 0 echoId ++ rest) + ck.toNat := by
  rw [← be16_toNat ck]
  simp only [echoHeader, be16, List.cons_append, List.nil_append, wordSum, zero_toNat]
  ring

/-- The complement of the sum of the even part completes the whole when the odd byte is zero. -/
theorem residue_complement_odd {x c y : ℕ} (hc : c = complement x) (hy : y < 256) :
    residue (x + c + 256 * y) = 65535 ↔ y = 0 := by
  have h := residue_complement x c hc
  unfold residue at h ⊢
  split_ifs at h ⊢ <;> omega

/-- The sum over an echo reply whose checksum was taken over its even part. -/
theorem onesSum_echo_iff {echoId payload : List UInt8} {ck : UInt16} (hid : echoId.length = 4)
    (hck : ck.toNat = complement (wordSum (evenPart (echoHeader 0 echoId ++ payload)))) :
    onesSum (echoHeader ck echoId ++ payload) = 0xffff ↔ Even payload.length ∨ payload.getLast? = some 0 := by
  have hlen : (echoHeader 0 echoId ++ payload).length = payload.length + 8 := by
    simp only [echoHeader, be16, List.length_append, List.length_cons, List.length_nil, hid]
    omega
  have heven : Even (echoHeader 0 echoId ++ payload).length ↔ Even payload.length := by
    rw [hlen, Nat.even_add]
    exact iff_true_right (by decide)
  rw [onesSum_eq_residue, wordSum_echoHeader, wordSum_evenPart (echoHeader 0 echoId ++ payload)]
  by_cases h : Even payload.length
  · rw [if_pos (heven.mpr h), Nat.add_zero]
    exact iff_of_true (residue_complement _ _ hck) (Or.inl h)
  · have hne : payload ≠ [] := by
      rintro rfl
      exact h (by decide)
    have hlast : (echoHeader 0 echoId ++ payload).getLastD 0 = payload.getLast hne := by
      rw [List.getLastD_eq_getLast?, List.getLast?_append_of_ne_nil _ hne, List.getLast?_eq_some_getLast hne]
      rfl
    rw [if_neg (fun he => h (heven.mp he)), hlast, Nat.add_right_comm, residue_complement_odd hck (UInt8.toNat_lt _),
      List.getLast?_eq_some_getLast hne, Option.some.injEq, or_iff_right h]
    exact UInt8.toNat_inj (b := 0)

/-! ### The reply in the transmit slot -/

namespace Eth

/-- The reply up to its source address, with the IP checksum still zero. -/
def echoIp (s : Eth) (length : ℕ) : Eth :=
  let s := s.fillEthHeader (s.rxMac 6) s.myMac 0x0800
  let s := s.put8 14 0x45
  let s := s.put8 15 0
  let s := s.put16 16 (htons (UInt16.ofNat (length + 28)))
  let s := s.put16 18 (htons 0)
  let s := s.put16 20 (htons 0x4000)
  let s := s.put8 22 64
  let s := s.put8 23 1
  let s := s.put16 24 0
  s.put32 26 (htonl s.myIp)

/-- The destination, which is where the request came from. -/
def echoBack (s : Eth) : Eth := s.put32 30 (s.rx32 26)

/-- The checksum of the IP header. -/
def echoIpSum (s : Eth) : Eth := s.put16 24 (htons (ipChecksum 0 s.mem (s.txBuffer + 14) 20 true))

/-- The ICMP header without its checksum. -/
def echoIcmp (s : Eth) : Eth :=
  let s := s.put8 34 0
  let s := s.put8 35 0
  let s := s.put16 38 (s.rx16 38)
  s.put16 40 (s.rx16 40)

/-- The copy of the payload. -/
def echoCopy (s : Eth) (length : ℕ) : Eth :=
  (List.range length).foldl (fun s i => s.put8 (42 + i) (s.rx8 (42 + i))) s

/-- The ICMP checksum. -/
def echoSum (s : Eth) (length : ℕ) : Eth :=
  let s := s.put16 36 0
  s.put16 36 (htons (ipChecksum 0 s.mem (s.txBuffer + 34) (length + 8) true))

theorem echoReply_parts (s : Eth) (length : ℕ) : s.echoReply soc length =
    ({ (((((s.echoIp length).echoBack).echoIpSum).echoIcmp).echoCopy length).echoSum length with
      txLen := length + 42 } : Eth).sendPacket soc := rfl

theorem store32_load32 (m : Mem) (a b : ℕ) : m.store32 b (m.load32 a) = m.write b (m.read a 4) := by
  obtain ⟨h0, h1, h2, h3⟩ := load32_bytes m a
  rw [Mem.store32_eq_write, h0, h1, h2, h3]
  rfl

theorem store16_load16 (m : Mem) (a b : ℕ) : m.store16 b (m.load16 a) = m.write b (m.read a 2) := by
  have h0 : (m.load16 a).toUInt8 = m a := by
    apply UInt8.toBitVec_inj.mp
    ext i hi
    interval_cases i <;> simp [Mem.load16]
  have h1 : (m.load16 a >>> 8).toUInt8 = m (a + 1) := by
    apply UInt8.toBitVec_inj.mp
    ext i hi
    interval_cases i <;> simp [Mem.load16]
  rw [Mem.store16_eq_write, h0, h1]
  rfl

theorem echoIp_eq (s : Eth) (length : ℕ) : s.echoIp length =
    s.withMem (s.mem.write s.txBuffer (ethHeader (s.rxMac 6) s.myMac ++ icmpIpHeader s.myIp [] length 0)) := by
  have hbytes : ([0x45, 0] : List UInt8) = [0x45] ++ [0] ∧ ([64, 1] : List UInt8) = [64] ++ [1] := ⟨rfl, rfl⟩
  unfold echoIp fillEthHeader
  simp only [putMac_eq]
  simp only [put8, put16, put32, withMem, Mem.set_eq_write, Mem.store16_eq_write, Mem.store32_eq_write, htons_byte0,
    htons_byte1, htonl_byte0, htonl_byte1, htonl_byte2, htonl_byte3]
  simp only [ethHeader, icmpIpHeader, be16, be32, hbytes.1, hbytes.2, List.append_nil, Mem.write_append,
    List.length_append, List.length_ofFn, List.length_cons, List.length_nil, Nat.reduceAdd, Nat.add_zero, Nat.add_assoc]
  rfl

theorem echoBack_eq (s : Eth) : s.echoBack =
    s.withMem (s.mem.write (s.txBuffer + 30) (s.mem.read (s.rxBuffer + 26) 4)) := by
  unfold echoBack
  simp only [put32, rx32, withMem, store32_load32]

theorem echoIcmp_eq {s : Eth} (h : s.rxBuffer + 42 ≤ s.txBuffer) : s.echoIcmp =
    s.withMem ((s.mem.write (s.txBuffer + 34) [0, 0]).write (s.txBuffer + 38) (s.mem.read (s.rxBuffer + 38) 4)) := by
  have hzeros : ([0, 0] : List UInt8) = [0] ++ [0] := rfl
  unfold echoIcmp
  simp only [put8, put16, rx16, withMem, store16_load16, Mem.set_eq_write]
  rw [Mem.read_write_apart _ _ (by simp; omega), hzeros, Mem.write_append, Mem.read_write_apart _ _ (by simp; omega),
    Mem.read_write_apart _ _ (by simp; omega), Mem.read_write_apart _ _ (by simp; omega),
    Mem.read_write_apart _ _ (by simp; omega), Mem.read_add _ (s.rxBuffer + 38) 2 2, Mem.write_append]
  rfl

/-- The bytes that are copied are those the frame had: the copy does not reach the slot
it reads from. -/
theorem echoCopy_eq (s : Eth) : ∀ length : ℕ, s.rxBuffer + (42 + length) ≤ s.txBuffer →
    s.echoCopy length = s.withMem (s.mem.write (s.txBuffer + 42) (s.mem.read (s.rxBuffer + 42) length))
  | 0, _ => by simp [echoCopy, withMem, Mem.write_nil]
  | k + 1, h => by
    have ih := echoCopy_eq s k (by omega)
    unfold echoCopy at ih ⊢
    rw [List.range_succ, List.foldl_append, ih]
    simp only [List.foldl_cons, List.foldl_nil, put8, rx8, withMem, Mem.set_eq_write]
    rw [Mem.write_apply_out _ _ (by omega), Mem.read_succ, Mem.write_append, Mem.length_read]
    simp only [Nat.add_assoc]

@[simp] theorem withMem_mem (s : Eth) (m : Mem) : (s.withMem m).mem = m := rfl
@[simp] theorem withMem_rxBuffer (s : Eth) (m : Mem) : (s.withMem m).rxBuffer = s.rxBuffer := rfl
@[simp] theorem withMem_txBuffer (s : Eth) (m : Mem) : (s.withMem m).txBuffer = s.txBuffer := rfl
@[simp] theorem withMem_withMem (s : Eth) (m m' : Mem) : (s.withMem m).withMem m' = s.withMem m' := rfl

theorem echoIpSum_eq (s : Eth) : s.echoIpSum =
    s.withMem (s.mem.write (s.txBuffer + 24) (be16 (ipChecksum 0 s.mem (s.txBuffer + 14) 20 true))) := by
  unfold echoIpSum
  simp only [put16, withMem, Mem.store16_eq_write, htons_byte0, htons_byte1, be16]

theorem echoSum_eq (s : Eth) (length : ℕ) : s.echoSum length =
    s.withMem (s.mem.write (s.txBuffer + 36) (be16 (ipChecksum 0 (s.mem.write (s.txBuffer + 36) (be16 0))
      (s.txBuffer + 34) (length + 8) true))) := by
  unfold echoSum
  simp only [put16, withMem, Mem.store16_eq_write, htons_byte0, htons_byte1]
  rw [Mem.write_write_same _ _ (by rfl)]
  rfl

/-- The checksum over a block that is there. -/
theorem ipChecksum_evenPart {m : Mem} {a : ℕ} {l : List UInt8} (h : m.read a l.length = l) (hlen : l.length < 65536) :
    (ipChecksum 0 m a l.length true).toNat = complement (wordSum (evenPart l)) := by
  have hread : m.read a (2 * (l.length / 2)) = evenPart l := by
    rw [evenPart, ← h, Mem.take_read, Mem.length_read, Nat.min_eq_left (by omega)]
  have hle := wordSum_le (evenPart l)
  have hlt : (evenPart l).length ≤ l.length := List.length_take_le' _ _
  have hsum := ipChecksum_complete 0 m a l.length
  rw [hread, UInt32.toNat_zero, Nat.zero_add] at hsum
  exact hsum (by omega)

/-- The parts of the message make one block. -/
theorem write_echo (m : Mem) (b : ℕ) {front check echoId : List UInt8} (payload : List UInt8)
    (hf : front.length = 34) (hc : check.length = 2) (hi : echoId.length = 4) :
    ((((m.write b front).write (b + 34) [0, 0]).write (b + 38) echoId).write (b + 42) payload).write (b + 36) check =
      m.write b (front ++ ([0, 0] ++ check ++ echoId ++ payload)) := by
  rw [Mem.write_comm _ (b + 42) (b + 36) (by omega), Mem.write_comm _ (b + 38) (b + 36) (by omega)]
  simp only [Mem.write_append, List.length_append, List.length_cons, List.length_nil, hf, hc, hi, Nat.add_assoc,
    Nat.reduceAdd]

/-- The checksum of the IP header is written into it. -/
theorem write_ipSum (m : Mem) (b : ℕ) (dst src : MacAddr) (ip : UInt32) {peer : List UInt8} (hp : peer.length = 4)
    (len : ℕ) (ck : UInt16) :
    (m.write b (ethHeader dst src ++ icmpIpHeader ip peer len 0)).write (b + 24) (be16 ck) =
      m.write b (ethHeader dst src ++ icmpIpHeader ip peer len ck) := by
  rw [Mem.write_write_inside _ _ _ _ _ (by simp [ethHeader, icmpIpHeader, be16, be32, hp])]
  rfl

theorem length_front (dst src : MacAddr) (ip : UInt32) {peer : List UInt8} (hp : peer.length = 4) (len : ℕ)
    (ck : UInt16) : (ethHeader dst src ++ icmpIpHeader ip peer len ck).length = 34 := by
  simp [ethHeader, icmpIpHeader, be16, be32, hp]

theorem read_front (m : Mem) (b : ℕ) (dst src : MacAddr) (ip : UInt32) {peer : List UInt8} (hp : peer.length = 4)
    (len : ℕ) : (m.write b (ethHeader dst src ++ icmpIpHeader ip peer len 0)).read (b + 14) 20 =
      icmpIpHeader ip peer len 0 := by
  have hlen : (icmpIpHeader ip peer len 0).length = 20 := by simp [icmpIpHeader, be16, be32, hp]
  rw [Mem.read_write_drop _ _ _ (by rw [length_front _ _ _ hp]), ← length_ethHeader dst src, List.drop_left,
    List.take_of_length_le (by omega)]

/-- The destination follows the source. -/
theorem write_peer (m : Mem) (b : ℕ) (dst src : MacAddr) (ip : UInt32) (peer : List UInt8) (len : ℕ) :
    (m.write b (ethHeader dst src ++ icmpIpHeader ip [] len 0)).write (b + 30) peer =
      m.write b (ethHeader dst src ++ icmpIpHeader ip peer len 0) := by
  have hsplit : icmpIpHeader ip peer len 0 = icmpIpHeader ip [] len 0 ++ peer := by
    simp [icmpIpHeader]
  rw [hsplit, ← List.append_assoc]
  exact (Mem.write_append m b (ethHeader dst src ++ icmpIpHeader ip [] len 0) peer).symm

/-- **The reply in the transmit slot**: the headers, the identifier and the payload of
the request, and the two checksums. -/
theorem echoReply_eq (s : Eth) (length : ℕ) (h : s.rxBuffer + (42 + length) ≤ s.txBuffer) (hlen : length + 8 < 65536) :
    ∃ ck ck' : UInt16,
      ck.toNat = complement (wordSum (icmpIpHeader s.myIp (s.mem.read (s.rxBuffer + 26) 4) length 0)) ∧
      ck'.toNat = complement (wordSum (evenPart
        (echoHeader 0 (s.mem.read (s.rxBuffer + 38) 4) ++ s.mem.read (s.rxBuffer + 42) length))) ∧
      s.echoReply soc length = ({ s with
        mem := s.mem.write s.txBuffer (echoFrame (s.rxMac 6) s.myMac s.myIp (s.mem.read (s.rxBuffer + 26) 4) length
          ck ck' (s.mem.read (s.rxBuffer + 38) 4) (s.mem.read (s.rxBuffer + 42) length))
        txLen := length + 42 } : Eth).sendPacket soc := by
  have hpeer : (s.mem.read (s.rxBuffer + 26) 4).length = 4 := Mem.length_read _ _ _
  have hid : (s.mem.read (s.rxBuffer + 38) 4).length = 4 := Mem.length_read _ _ _
  have hpay : (s.mem.read (s.rxBuffer + 42) length).length = length := Mem.length_read _ _ _
  -- what the code reads of the request is what it was before the writes
  have hkeep : ∀ (l : List UInt8) {off n : ℕ}, off + n ≤ 42 + length →
      (s.mem.write s.txBuffer l).read (s.rxBuffer + off) n = s.mem.read (s.rxBuffer + off) n := by
    intro l off n hoff
    exact Mem.read_write_apart _ _ (Or.inl (by omega))
  rw [echoReply_parts, echoIp_eq, echoBack_eq]
  simp only [withMem_mem, withMem_rxBuffer, withMem_txBuffer, withMem_withMem]
  rw [hkeep _ (by omega), write_peer, echoIpSum_eq]
  simp only [withMem_mem, withMem_txBuffer, withMem_withMem]
  generalize s.mem.read (s.rxBuffer + 26) 4 = peer at hpeer ⊢
  have hck := ipChecksum_of_read (read_front s.mem s.txBuffer (s.rxMac 6) s.myMac s.myIp hpeer length)
  generalize ipChecksum 0 _ (s.txBuffer + 14) 20 true = ck at hck ⊢
  rw [write_ipSum _ _ _ _ _ hpeer, echoIcmp_eq (by simp only [withMem_rxBuffer, withMem_txBuffer]; omega)]
  simp only [withMem_mem, withMem_rxBuffer, withMem_txBuffer, withMem_withMem]
  rw [hkeep _ (by omega), echoCopy_eq _ _ (by simp only [withMem_rxBuffer, withMem_txBuffer]; omega)]
  simp only [withMem_mem, withMem_rxBuffer, withMem_txBuffer, withMem_withMem]
  rw [Mem.read_write_apart _ _ (Or.inl (by omega)), Mem.read_write_apart _ _ (Or.inl (by omega)), hkeep _ (by omega),
    echoSum_eq]
  simp only [withMem_mem, withMem_txBuffer, withMem_withMem]
  generalize s.mem.read (s.rxBuffer + 38) 4 = echoId at hid ⊢
  generalize s.mem.read (s.rxBuffer + 42) length = payload at hpay ⊢
  have hfront := length_front (s.rxMac 6) s.myMac s.myIp hpeer length ck
  rw [write_echo _ _ _ hfront rfl hid, write_echo _ _ _ hfront rfl hid]
  have hmsg : (echoHeader 0 echoId ++ payload).length = length + 8 := by
    simp only [echoHeader, be16, List.length_append, List.length_cons, List.length_nil, hid, hpay]
    omega
  have hread : (s.mem.write s.txBuffer (ethHeader (s.rxMac 6) s.myMac ++ icmpIpHeader s.myIp peer length ck ++
      (echoHeader 0 echoId ++ payload))).read (s.txBuffer + 34) (echoHeader 0 echoId ++ payload).length =
        echoHeader 0 echoId ++ payload := by
    rw [Mem.write_append, hfront, Mem.read_write]
  have hck' := ipChecksum_evenPart hread (by omega)
  rw [hmsg] at hck'
  exact ⟨ck, _, hck, hck', rfl⟩

end Eth

/-! ### A request and its reply -/

/-- The frame is an echo request to `ip`, by the tests of `process_frame` and
`process_icmp`. -/
structure AsksEcho (ip : UInt32) (f : List UInt8) : Prop where
  length : 42 ≤ f.length
  etherType : field16 f 12 = 0x0800
  version : f.getD 14 0 = 0x45
  proto : f.getD 23 0 = 1
  dstIp : slice f 30 4 = be32 ip
  ipLength : 28 ≤ field16 f 16
  type : f.getD 34 0 = 8

/-- The request has all the bytes it says it has. -/
structure IsEchoRequest (ip : UInt32) (f : List UInt8) : Prop extends AsksEcho ip f where
  whole : field16 f 16 + 14 ≤ f.length

/-- The payload of an ICMP frame. -/
def icmpPayload (f : List UInt8) : List UInt8 := slice f 42 (field16 f 16 - 28)

/-- The frame that answers `f`, to `dst` from `mac` and `ip`, with these checksums. -/
def replyTo (f : List UInt8) (dst mac : MacAddr) (ip : UInt32) (ck ck' : UInt16) : List UInt8 :=
  echoFrame dst mac ip (slice f 26 4) (field16 f 16 - 28) ck ck' (slice f 38 4) (icmpPayload f)

/-- `g` goes back to where `f` came from, with its identifier, sequence number and payload. -/
structure IsEchoReply (mac : MacAddr) (f g : List UInt8) : Prop where
  length : g.length = field16 f 16 + 14
  destMac : slice g 0 6 = slice f 6 6
  srcMac : slice g 6 6 = List.ofFn mac
  ipLength : field16 g 16 = field16 f 16
  srcIp : slice g 26 4 = slice f 30 4
  dstIp : slice g 30 4 = slice f 26 4
  ipChecksum : onesSum (slice g 14 20) = 0xffff
  type : slice g 34 2 = [0, 0]
  echoId : slice g 38 4 = slice f 38 4
  payload : slice g 42 (field16 f 16 - 28) = icmpPayload f

/-- An echo request is answered. -/
theorem Eth.processFrame_echo {e : Eth} {f : List UInt8} (h : e.Fetched f) (hf : AsksEcho e.myIp f) :
    (e.processFrame soc).1 = e.echoReply soc (field16 f 16 - 28) := by
  obtain ⟨a0, a1, a2, a3, a4, a5, a6⟩ := hf
  have h12 : ntohs (e.rx16 12) = 0x0800 := (h.field_eq (by omega) _).mpr a1
  have h14 : e.rx8 14 = 0x45 := (h.bytes 14 (by omega)).trans a2
  have h23 : e.rx8 23 = 1 := (h.bytes 23 (by omega)).trans a3
  have h30 : ntohl (e.rx32 30) = e.myIp := (h.ip_eq (by omega) _).mpr a4
  have h16 := h.field 16 (by omega)
  have h34 : e.rx8 34 = 8 := (h.bytes 34 (by omega)).trans a6
  rw [processFrame, if_neg (by rw [h12]; decide), if_pos h12, if_neg (not_not.mpr h14), if_neg (not_not.mpr h30),
    if_neg (by rw [h23]; decide), if_pos h23]
  show e.processIcmp soc = _
  rw [processIcmp, if_neg (by rw [h.len]; omega), if_neg (by omega)]
  dsimp only
  rw [if_pos h34, h16]

/-- A part of a frame is found at its place. -/
theorem slice_part {g a b c : List UInt8} {o n : ℕ} (hg : g = a ++ (b ++ c)) (ho : o = a.length) (hn : n = b.length) :
    slice g o n = b := by
  rw [hg]
  exact excerpt_middle a b c ho hn

section Parts

variable {dst src : MacAddr} {ip : UInt32} {peer : List UInt8} {len : ℕ} {ck ck' : UInt16} {echoId payload : List UInt8}

theorem length_echoFrame (hp : peer.length = 4) (hi : echoId.length = 4) :
    (echoFrame dst src ip peer len ck ck' echoId payload).length = payload.length + 42 := by
  rw [echoFrame, List.length_append, Eth.length_front _ _ _ hp]
  simp only [echoHeader, be16, List.length_append, List.length_cons, List.length_nil, hi]
  omega

/-- The ICMP message in the frame. -/
theorem slice_message (hp : peer.length = 4) (hi : echoId.length = 4) :
    slice (echoFrame dst src ip peer len ck ck' echoId payload) 34 (payload.length + 8) =
      echoHeader ck' echoId ++ payload := by
  apply slice_part (c := []) _ (Eth.length_front dst src ip hp len ck).symm
  · simp only [echoHeader, be16, List.length_append, List.length_cons, List.length_nil, hi]
    omega
  · rw [List.append_nil, echoFrame]

/-- The IP header in the frame verifies. -/
theorem onesSum_echoFrame (hp : peer.length = 4) (hck : ck.toNat = complement (wordSum (icmpIpHeader ip peer len 0))) :
    onesSum (slice (echoFrame dst src ip peer len ck ck' echoId payload) 14 20) = 0xffff := by
  have hip : slice (echoFrame dst src ip peer len ck ck' echoId payload) 14 20 = icmpIpHeader ip peer len ck := by
    apply slice_part (List.append_assoc _ _ _) (length_ethHeader dst src).symm
    simp [icmpIpHeader, be16, be32, hp]
  rw [hip, onesSum_eq_residue, wordSum_icmpIpHeader]
  exact residue_complement _ _ hck

theorem slice_peer (hp : peer.length = 4) :
    slice (echoFrame dst src ip peer len ck ck' echoId payload) 30 4 = peer := by
  apply slice_part (a := ethHeader dst src ++ icmpIpHeader ip [] len ck) (c := echoHeader ck' echoId ++ payload) _ rfl
    hp.symm
  simp [echoFrame, icmpIpHeader]

theorem slice_type (hp : peer.length = 4) :
    slice (echoFrame dst src ip peer len ck ck' echoId payload) 34 2 = [0, 0] := by
  apply slice_part (b := [0, 0]) (c := be16 ck' ++ echoId ++ payload) _ (Eth.length_front dst src ip hp len ck).symm rfl
  simp [echoFrame, echoHeader]

theorem slice_echoId (hp : peer.length = 4) (hi : echoId.length = 4) :
    slice (echoFrame dst src ip peer len ck ck' echoId payload) 38 4 = echoId := by
  apply slice_part (a := ethHeader dst src ++ icmpIpHeader ip peer len ck ++ ([0, 0] ++ be16 ck')) (c := payload) _ _
    hi.symm
  · simp [echoFrame, echoHeader]
  · rw [List.length_append, Eth.length_front _ _ _ hp]
    rfl

theorem slice_payload (hp : peer.length = 4) (hi : echoId.length = 4) :
    slice (echoFrame dst src ip peer len ck ck' echoId payload) 42 payload.length = payload := by
  apply slice_part (a := ethHeader dst src ++ icmpIpHeader ip peer len ck ++ echoHeader ck' echoId) (c := []) _ _ rfl
  · simp [echoFrame]
  · rw [List.length_append, Eth.length_front _ _ _ hp]
    simp [echoHeader, be16, hi]

end Parts

namespace IsEchoRequest

variable {ip : UInt32} {f : List UInt8}

theorem length_peer (hf : IsEchoRequest ip f) : (slice f 26 4).length = 4 :=
  length_excerpt (by have := hf.length; omega)

theorem length_echoId (hf : IsEchoRequest ip f) : (slice f 38 4).length = 4 :=
  length_excerpt (by have := hf.length; omega)

theorem length_payload (hf : IsEchoRequest ip f) : (icmpPayload f).length = field16 f 16 - 28 :=
  length_excerpt (by have := hf.whole; have := hf.ipLength; omega)

end IsEchoRequest

theorem field16_lt (f : List UInt8) (off : ℕ) : field16 f off < 65536 := by
  have h0 := (f.getD off 0).toNat_lt
  have h1 := (f.getD (off + 1) 0).toNat_lt
  unfold field16
  omega

/-- The parts of the reply are where a receiver looks for them. -/
theorem isEchoReply_replyTo {f : List UInt8} {dst : MacAddr} (mac : MacAddr) {ip : UInt32} {ck : UInt16} (ck' : UInt16)
    (hf : IsEchoRequest ip f) (hdst : List.ofFn dst = slice f 6 6)
    (hck : ck.toNat = complement (wordSum (icmpIpHeader ip (slice f 26 4) (field16 f 16 - 28) 0))) :
    IsEchoReply mac f (replyTo f dst mac ip ck ck') := by
  have h28 := hf.ipLength
  have hshort := field16_lt f 16
  have hpay := hf.length_payload
  have hlen16 := be16_toNat (UInt16.ofNat (field16 f 16 - 28 + 28))
  rw [ofNat16_toNat (by omega)] at hlen16
  unfold replyTo
  refine ⟨?_, ?_, rfl, ?_, ?_, slice_peer hf.length_peer, onesSum_echoFrame hf.length_peer hck,
    slice_type hf.length_peer, slice_echoId hf.length_peer hf.length_echoId, ?_⟩
  · rw [length_echoFrame hf.length_peer hf.length_echoId]
    omega
  · rw [← hdst]
    rfl
  · exact hlen16.trans (by omega)
  · rw [hf.dstIp]
    rfl
  · rw [← hpay]
    exact slice_payload hf.length_peer hf.length_echoId

/-- Its ICMP checksum, taken over an even number of bytes, may not verify. -/
theorem onesSum_replyTo_iff {f : List UInt8} (dst mac : MacAddr) {ip : UInt32} (ck : UInt16) {ck' : UInt16}
    (hf : IsEchoRequest ip f)
    (hck' : ck'.toNat = complement (wordSum (evenPart (echoHeader 0 (slice f 38 4) ++ icmpPayload f)))) :
    onesSum (slice (replyTo f dst mac ip ck ck') 34 (field16 f 16 - 20)) = 0xffff ↔
      Even (icmpPayload f).length ∨ (icmpPayload f).getLast? = some 0 := by
  have h28 := hf.ipLength
  have hlen : field16 f 16 - 20 = (icmpPayload f).length + 8 := by
    rw [hf.length_payload]
    omega
  rw [hlen, replyTo, slice_message hf.length_peer hf.length_echoId]
  exact onesSum_echo_iff hf.length_echoId hck'

/-- The reply that a node sends while it serves a request. -/
theorem Eth.echoReply_replyTo {e : Eth} {f : List UInt8} (h : e.Fetched f) (hf : IsEchoRequest e.myIp f)
    (hbelow : e.rxBuffer + f.length ≤ e.txBuffer) :
    ∃ ck ck' : UInt16,
      ck.toNat = complement (wordSum (icmpIpHeader e.myIp (slice f 26 4) (field16 f 16 - 28) 0)) ∧
      ck'.toNat = complement (wordSum (evenPart (echoHeader 0 (slice f 38 4) ++ icmpPayload f))) ∧
      e.echoReply soc (field16 f 16 - 28) = ({ e with
        mem := e.mem.write e.txBuffer (replyTo f (e.rxMac 6) e.myMac e.myIp ck ck')
        txLen := (replyTo f (e.rxMac 6) e.myMac e.myIp ck ck').length } : Eth).sendPacket soc := by
  have hwhole := hf.whole
  have h28 := hf.ipLength
  have hshort := field16_lt f 16
  obtain ⟨ck, ck', hck, hck', hreply⟩ := echoReply_eq soc e (field16 f 16 - 28) (by omega) (by omega)
  rw [h.read_slice (by omega)] at hck
  rw [h.read_slice (by omega), h.read_slice (by omega)] at hck'
  rw [h.read_slice (by omega), h.read_slice (by omega), h.read_slice (by omega)] at hreply
  refine ⟨ck, ck', hck, hck', ?_⟩
  have hlen : (replyTo f (e.rxMac 6) e.myMac e.myIp ck ck').length = field16 f 16 - 28 + 42 := by
    rw [replyTo, length_echoFrame hf.length_peer hf.length_echoId, hf.length_payload]
  rw [hlen]
  exact hreply

/-- **An odd echo payload is answered with a wrong checksum.** A whole echo request makes
the node start one frame, which goes back with the identifier, the sequence number and the
payload of the request, and with an IP checksum that verifies. Its ICMP checksum verifies
exactly when the payload has an even number of bytes or ends with a zero. -/
theorem echo_reply_verifies_iff (n : Node) (hn : n.eth.TxOk soc) (slot : ℕ) (hslot : slot < soc.rxSlots)
    (f : List UInt8) (hf : IsEchoRequest n.eth.myIp f) (hlen : f.length ≤ 2048) :
    ∃ reply : TxStart,
      ((n.store slot f).service soc slot f.length).eth.started = n.eth.started ++ [reply] ∧
      reply.length = reply.frame.length ∧ IsEchoReply n.eth.myMac f reply.frame ∧
      (onesSum (slice reply.frame 34 (field16 f 16 - 20)) = 0xffff ↔
        Even (icmpPayload f).length ∨ (icmpPayload f).getLast? = some 0) := by
  have hs := Node.serves_store soc hn hslot f
  rw [Node.service_eth]
  generalize ((n.store slot f).fetch slot f.length).eth = e at hs
  have hbelow := hs.below
  have hdst : List.ofFn (e.rxMac 6) = slice f 6 6 := by
    rw [← hs.fetched.read_slice (by have := hf.length; omega)]
    rfl
  rw [← hs.myIp] at hf
  obtain ⟨ck, ck', hck, hck', hreply⟩ := Eth.echoReply_replyTo soc hs.fetched hf (by omega)
  rw [Eth.processFrame_echo soc hs.fetched hf.toAsksEcho, hreply, ← hs.started, ← hs.myMac]
  exact ⟨⟨e.txSlot, _, _⟩, Eth.started_sendPacket soc hs.txOk, rfl, isEchoReply_replyTo e.myMac ck' hf hdst hck,
    onesSum_replyTo_iff (e.rxMac 6) e.myMac ck hf hck'⟩

/-- An echo request of 192.168.1.100 to the client, with the one byte 7 as its payload. -/
def pingSeven : List UInt8 :=
  [2, 0, 0, 0, 0, 1] ++ [6, 5, 4, 3, 2, 1] ++ be16 0x0800 ++
    icmpIpHeader Node.serverIp (be32 Node.myIp) 1 0xb6f9 ++ [8, 0] ++ be16 0xc0fd ++ [0x30, 0, 0, 1] ++ [7] ++
    List.replicate 17 0

/-- The reply to it does not verify. -/
theorem echo_reply_verifies_iff_seven :
    ∃ reply : TxStart,
      ((Node.simClient.store 0 pingSeven).service Soc.sim 0 60).eth.started = [reply] ∧
      slice reply.frame 42 1 = [7] ∧ onesSum (slice reply.frame 34 9) ≠ 0xffff := by
  obtain ⟨reply, hstarted, -, hparts, hiff⟩ := echo_reply_verifies_iff Soc.sim Node.simClient
    (Node.client_txOk Soc.sim _) 0 (by decide) pingSeven
    ⟨⟨by decide, by decide, by decide, by decide, by decide, by decide, by decide⟩, by decide⟩ (by decide)
  refine ⟨reply, hstarted, hparts.payload, fun h => ?_⟩
  exact absurd (hiff.mp h) (by decide)

/-! ### A reply that is longer than its slot -/

namespace Eth

/-- The copy of one more byte. -/
theorem echoCopy_succ (s : Eth) (k : ℕ) : (s.echoCopy (k + 1)).mem =
    (s.echoCopy k).mem.set (s.txBuffer + (42 + k)) ((s.echoCopy k).mem (s.rxBuffer + (42 + k))) := by
  obtain ⟨m, hm⟩ := echoCopy_withMem s k
  unfold echoCopy
  rw [List.range_succ, List.foldl_append, hm]
  rfl

/-- The copy writes behind the ICMP header only. -/
theorem echoCopy_apart (s : Eth) {x : ℕ} (hx : x < s.txBuffer + 42) (k : ℕ) : (s.echoCopy k).mem x = s.mem x := by
  induction k with
  | zero => rfl
  | succ k ih => rw [echoCopy_succ, Mem.set_ne _ _ (by omega), ih]

/-- Each byte is copied once, as it is when its turn comes. -/
theorem echoCopy_at (s : Eth) {i k : ℕ} (h : i < k) :
    (s.echoCopy k).mem (s.txBuffer + (42 + i)) = (s.echoCopy i).mem (s.rxBuffer + (42 + i)) := by
  induction k with
  | zero => exact absurd h (Nat.not_lt_zero i)
  | succ k ih =>
    rw [echoCopy_succ]
    rcases Nat.lt_or_eq_of_le (Nat.lt_succ_iff.mp h) with hi | rfl
    · rw [Mem.set_ne _ _ (by omega), ih hi]
    · rw [Mem.set_same]

theorem echoSum_apart (s : Eth) (length : ℕ) {x : ℕ} (hx : s.txBuffer + 38 ≤ x) :
    (s.echoSum length).mem x = s.mem x := by
  rw [echoSum_eq]
  exact Mem.write_apply_out _ _ (Or.inr hx)

/-- What is built before the copy, and its first byte. -/
theorem echoFront_first {s : Eth} (length : ℕ) (h : s.rxBuffer + 42 ≤ s.txBuffer) :
    ∃ m, (((s.echoIp length).echoBack).echoIpSum).echoIcmp = s.withMem m ∧ m s.txBuffer = s.rxMac 6 0 := by
  rw [echoIp_eq, echoBack_eq, echoIpSum_eq, echoIcmp_eq (by exact h)]
  simp only [withMem_mem, withMem_rxBuffer, withMem_txBuffer, withMem_withMem]
  refine ⟨_, rfl, ?_⟩
  rw [Mem.write_apply_out _ _ (by omega), Mem.write_apply_out _ _ (by omega), Mem.write_apply_out _ _ (by omega),
    Mem.write_apply_out _ _ (by omega)]
  exact Mem.write_apply_of_lt s.mem (a := s.txBuffer) (i := 0) _ (by simp [ethHeader, be16])

/-- The byte behind the slot of a long reply: the copy has come back to what the reply
begins with, as its slot follows the one it reads from. -/
theorem echoReply_beyond {s : Eth} {length : ℕ} (h : s.rxBuffer + 2048 = s.txBuffer) (hl : 2006 < length) :
    (s.echoReply soc length).mem (s.txBuffer + 2048) = s.rxMac 6 0 := by
  obtain ⟨m, hm, hfirst⟩ := echoFront_first (s := s) length (by omega)
  obtain ⟨m', hm'⟩ := echoCopy_withMem (s.withMem m) length
  have hmem : (s.echoReply soc length).mem = (((s.withMem m).echoCopy length).echoSum length).mem := by
    rw [echoReply_parts, hm]
    rfl
  have hsum : (((s.withMem m).echoCopy length).echoSum length).mem (s.txBuffer + 2048) =
      ((s.withMem m).echoCopy length).mem (s.txBuffer + 2048) := by
    apply echoSum_apart
    rw [echoCopy, hm', withMem_txBuffer, withMem_txBuffer]
    omega
  have hcopy := echoCopy_at (s.withMem m) hl
  have hback := echoCopy_apart (s.withMem m) (x := s.txBuffer) (by rw [withMem_txBuffer]; omega) 2006
  rw [withMem_txBuffer, withMem_rxBuffer, show 42 + 2006 = 2048 by rfl, h] at hcopy
  calc (s.echoReply soc length).mem (s.txBuffer + 2048)
      = ((s.withMem m).echoCopy length).mem (s.txBuffer + 2048) := by rw [hmem, hsum]
    _ = ((s.withMem m).echoCopy 2006).mem s.txBuffer := hcopy
    _ = m s.txBuffer := hback
    _ = s.rxMac 6 0 := hfirst

end Eth

namespace Node

/-- A reply that fits leaves everything outside its slot as it was. -/
theorem service_short_echo {n : Node} (hok : n.eth.TxOk soc) {slot : ℕ} (hslot : slot < soc.rxSlots) {f : List UInt8}
    (hf : AsksEcho n.eth.myIp f) (hshort : field16 f 16 + 14 ≤ 2048) {x : ℕ}
    (hx : x < n.eth.txBuffer ∨ n.eth.txBuffer + 2048 ≤ x) :
    ((n.store slot f).service soc slot f.length).eth.mem x = (n.store slot f).eth.mem x := by
  have h28 := hf.ipLength
  have hs := serves_store soc hok hslot f
  have hmem : ((n.store slot f).fetch slot f.length).eth.mem = (n.store slot f).eth.mem := rfl
  have htx : ((n.store slot f).fetch slot f.length).eth.txBuffer = n.eth.txBuffer := rfl
  rw [service_eth, ← hmem]
  rw [← htx] at hx
  generalize ((n.store slot f).fetch slot f.length).eth = e at hs hx ⊢
  have hbelow := hs.below
  rw [← hs.myIp] at hf
  rw [Eth.processFrame_echo soc hs.fetched hf]
  obtain ⟨ck, ck', -, -, hreply⟩ := Eth.echoReply_eq soc e (field16 f 16 - 28) (by omega) (by omega)
  rw [hreply]
  show (e.mem.write e.txBuffer _) x = e.mem x
  apply Mem.write_apply_out
  rw [length_echoFrame (Mem.length_read _ _ _) (Mem.length_read _ _ _), Mem.length_read]
  omega

/-- A longer one, to a request in the slot before, puts a byte of the request behind it. -/
theorem service_long_echo {n : Node} (hok : n.eth.TxOk soc) {slot : ℕ} (hslot : slot < soc.rxSlots)
    (hnext : rxAddr slot + 2048 = n.eth.txBuffer) {f : List UInt8} (hf : AsksEcho n.eth.myIp f)
    (hlong : 2048 < field16 f 16 + 14) :
    ((n.store slot f).service soc slot f.length).eth.mem (n.eth.txBuffer + 2048) = f.getD 6 0 := by
  have h42 := hf.length
  have hs := serves_store soc hok hslot f
  have hrx : ((n.store slot f).fetch slot f.length).eth.rxBuffer = rxAddr slot := rfl
  have htx : ((n.store slot f).fetch slot f.length).eth.txBuffer = n.eth.txBuffer := rfl
  rw [service_eth]
  generalize ((n.store slot f).fetch slot f.length).eth = e at hs hrx htx ⊢
  rw [← hs.myIp] at hf
  rw [Eth.processFrame_echo soc hs.fetched hf, ← htx, Eth.echoReply_beyond soc (by rw [hrx, htx, hnext]) (by omega)]
  exact hs.fetched.bytes 6 (by omega)

/-- A node whose next transmit slot is the first one, with `v` behind it. -/
def beforeByte (ip : UInt32) (v : UInt8) : Node :=
  { boot with
    eth := { boot.eth with
      mem := fun x => if x = soc.txAddr 0 + 2048 then v else 0, myIp := ip, txSlot := 0, txBuffer := soc.txAddr 0 } }

theorem beforeByte_mem (ip : UInt32) (v : UInt8) : (beforeByte soc ip v).eth.mem (soc.txAddr 0 + 2048) = v := by
  simp only [beforeByte, if_true]

theorem beforeByte_store (ip : UInt32) (v : UInt8) {slot : ℕ} (hslot : slot < soc.rxSlots) {f : List UInt8}
    (hlen : f.length ≤ 2048) : ((beforeByte soc ip v).store slot f).eth.mem (soc.txAddr 0 + 2048) = v := by
  have hbelow := rxAddr_below soc 0 hslot
  have hstore : ((beforeByte soc ip v).store slot f).eth.mem =
      (beforeByte soc ip v).eth.mem.write (rxAddr slot) f := rfl
  rw [hstore, Mem.write_apply_out _ _ (Or.inr (by omega)), beforeByte_mem]

end Node

/-- **The reply stays in its slot exactly when the IP length says so little.** A request
whose length field is beyond 2034 makes some node write behind its transmit slot, however
short the frame is; one whose length is not makes none. -/
theorem echo_stays_in_slot_iff (ip : UInt32) (f : List UInt8) (hf : AsksEcho ip f) (hlen : f.length ≤ 2048) :
    (∀ (n : Node) (slot : ℕ), n.eth.TxOk soc → slot < soc.rxSlots → n.eth.myIp = ip →
      ∀ x, x < n.eth.txBuffer ∨ n.eth.txBuffer + 2048 ≤ x →
        ((n.store slot f).service soc slot f.length).eth.mem x = (n.store slot f).eth.mem x) ↔
      field16 f 16 + 14 ≤ 2048 := by
  constructor
  · intro hall
    by_contra hlong
    -- the last receive slot lies right before the first transmit slot
    have hpos := soc.rxPos
    have hslot : soc.rxSlots - 1 < soc.rxSlots := by omega
    have hnext : rxAddr (soc.rxSlots - 1) + 2048 = soc.txAddr 0 := by
      unfold rxAddr Soc.txAddr
      omega
    have hok : (Node.beforeByte soc ip (f.getD 6 0 + 1)).eth.TxOk soc := ⟨soc.txPos, rfl⟩
    have hkept := hall (Node.beforeByte soc ip (f.getD 6 0 + 1)) _ hok hslot rfl (soc.txAddr 0 + 2048) (Or.inr le_rfl)
    have hlost := Node.service_long_echo soc hok hslot hnext hf (by omega)
    rw [Node.beforeByte_store soc ip _ hslot hlen] at hkept
    have hsame : f.getD 6 0 = f.getD 6 0 + 1 := hlost.symm.trans hkept
    simp at hsame
  · intro hshort n slot hok hslot hip x hx
    exact Node.service_short_echo soc hok hslot (hip ▸ hf) hshort hx

/-- The client, whose slot ends at 6144, answers the one byte inside it. -/
theorem echo_stays_in_slot_iff_seven :
    Node.simClient.eth.txBuffer + 2048 = 6144 ∧
      ((Node.simClient.store 0 pingSeven).service Soc.sim 0 60).eth.mem 6144 =
        (Node.simClient.store 0 pingSeven).eth.mem 6144 := by
  refine ⟨rfl, ?_⟩
  exact (echo_stays_in_slot_iff Soc.sim Node.myIp pingSeven
    ⟨by decide, by decide, by decide, by decide, by decide, by decide, by decide⟩ (by decide)).mpr (by decide)
    Node.simClient 0 (Node.client_txOk Soc.sim _) (by decide) rfl 6144 (Or.inr le_rfl)

end PqcDtls
