/-
# The frame a send builds

What the program of `PqcDtls.Send` leaves in the transmit slot when nothing
interferes, segment by segment: the copy puts the record behind the headers
(`act_copy`), the header statements fill the headers in one block
(`act_plain`), the checksum statements store the complements of their sums
(`header_spec`), and the start write hands the MAC a UDP frame with the record
as its payload (`start_frame`).
-/
import PqcDtls.Frame
import PqcDtls.Send

namespace PqcDtls

open Lib

variable (soc : Soc)

/-! ### Straight-line statements -/

/-- The statements after which the call goes on. -/
def Instr.Falls : Instr → Prop
  | .returnIfZero => False
  | .done => False
  | _ => True

theorem act_ret {i : Instr} (h : i.Falls) (c : Call) : (i.act soc c).ret = c.ret := by
  cases i <;> simp only [Instr.Falls] at h <;> simp only [Instr.act] <;> split_ifs <;> rfl

/-- Only a start write adds to the start writes. -/
theorem act_started (c : Call) {i : Instr} (hi : i ≠ .startWrite) :
    (i.act soc c).eth.started = c.eth.started := by
  cases i <;> first
    | rfl
    | exact absurd rfl hi
    | (unfold Instr.act; dsimp only; split_ifs <;> rfl)

theorem act_txSlot (c : Call) {i : Instr} (hi : i ≠ .nextSlot) :
    (i.act soc c).eth.txSlot = c.eth.txSlot := by
  cases i <;> first
    | rfl
    | exact absurd rfl hi
    | (unfold Instr.act; dsimp only; split_ifs <;> rfl)

theorem act_txBuffer (c : Call) {i : Instr} (hi : i ≠ .nextBuffer) :
    (i.act soc c).eth.txBuffer = c.eth.txBuffer := by
  cases i <;> first
    | rfl
    | exact absurd rfl hi
    | (unfold Instr.act; dsimp only; split_ifs <;> rfl)

/-- The parts of a call that no statement and no frame changes. -/
structure Same (c c' : Call) : Prop where
  buf : c'.buf = c.buf
  sz : c'.sz = c.sz
  srcPort : c'.srcPort = c.srcPort
  dstPort : c'.dstPort = c.dstPort
  myIp : c'.eth.myIp = c.eth.myIp
  cachedIp : c'.eth.cachedIp = c.eth.cachedIp

theorem Same.refl (c : Call) : Same c c := ⟨rfl, rfl, rfl, rfl, rfl, rfl⟩

theorem Same.trans {c₁ c₂ c₃ : Call} (h : Same c₁ c₂) (h' : Same c₂ c₃) : Same c₁ c₃ :=
  ⟨h'.buf.trans h.buf, h'.sz.trans h.sz, h'.srcPort.trans h.srcPort, h'.dstPort.trans h.dstPort,
    h'.myIp.trans h.myIp, h'.cachedIp.trans h.cachedIp⟩

theorem act_same (c : Call) (i : Instr) :
    Same c (i.act soc c) ∧ (i.act soc c).eth.cachedMac = c.eth.cachedMac := by
  cases i <;> first
    | exact ⟨⟨rfl, rfl, rfl, rfl, rfl, rfl⟩, rfl⟩
    | (unfold Instr.act; dsimp only; split_ifs <;> exact ⟨⟨rfl, rfl, rfl, rfl, rfl, rfl⟩, rfl⟩)

theorem exec_same (c : Call) (i : Instr) :
    Same c (i.exec soc c) ∧ (i.exec soc c).eth.cachedMac = c.eth.cachedMac := by
  unfold Instr.exec
  split_ifs
  · exact ⟨Same.refl c, rfl⟩
  · exact act_same soc c i

theorem exec_started (c : Call) {i : Instr} (hi : i ≠ .startWrite) :
    (i.exec soc c).eth.started = c.eth.started := by
  unfold Instr.exec
  split_ifs
  · rfl
  · exact act_started soc c hi

theorem exec_running {c : Call} (h : c.ret = none) (i : Instr) : i.exec soc c = i.act soc c := by
  simp [Instr.exec, h]

def actAll (c : Call) (is : List Instr) : Call := is.foldl (Instr.act soc) c

theorem actAll_append (c : Call) (is js : List Instr) :
    actAll soc c (is ++ js) = actAll soc (actAll soc c is) js := List.foldl_append

theorem execAll_append (c : Call) (is js : List Instr) :
    execAll soc c (is ++ js) = execAll soc (execAll soc c is) js := List.foldl_append

theorem execAll_same : ∀ (is : List Instr) (c : Call),
    Same c (execAll soc c is) ∧ (execAll soc c is).eth.cachedMac = c.eth.cachedMac
  | [], c => ⟨Same.refl c, rfl⟩
  | i :: is, c => by
    obtain ⟨h1, h2⟩ := exec_same soc c i
    obtain ⟨h3, h4⟩ := execAll_same is (i.exec soc c)
    exact ⟨h1.trans h3, h4.trans h2⟩

theorem execAll_eq_actAll : ∀ (is : List Instr) (c : Call), c.ret = none → (∀ i ∈ is, i.Falls) →
    execAll soc c is = actAll soc c is
  | [], _, _, _ => rfl
  | i :: is, c, hc, h => by
    have hi : (i.act soc c).ret = none := (act_ret soc (h i List.mem_cons_self) c).trans hc
    have ih := execAll_eq_actAll is (i.act soc c) hi fun j hj => h j (List.mem_cons_of_mem _ hj)
    simpa [execAll, actAll, Instr.exec, hc] using ih

theorem actAll_ret {is : List Instr} (h : ∀ i ∈ is, i.Falls) : ∀ {c : Call}, c.ret = none →
    (actAll soc c is).ret = none := by
  induction is with
  | nil => exact fun hc => hc
  | cons i is ih =>
    intro c hc
    exact ih (fun j hj => h j (List.mem_cons_of_mem _ hj)) ((act_ret soc (h i List.mem_cons_self) c).trans hc)

/-- The call with another memory. -/
def Call.withMem (c : Call) (m : Mem) : Call := { c with eth := { c.eth with mem := m } }

/-! ### The plain writes -/

/-- The copy of the record, byte by byte, is one block. -/
theorem act_copy (c : Call) : ∀ k, actAll soc c ((List.range k).map .copy) =
    c.withMem (c.eth.mem.write c.tx (c.buf.read 0 k))
  | 0 => by simp [actAll, Call.withMem, Mem.write_nil]
  | k + 1 => by
    rw [List.range_succ, List.map_append, actAll_append, act_copy c k]
    simp only [actAll, List.map_cons, List.map_nil, List.foldl_cons, List.foldl_nil, Instr.act,
      Call.withMem, Mem.set_eq_write]
    rw [Mem.read_succ, Mem.write_append, Mem.length_read, Nat.zero_add]

/-- The record lands behind the room for the headers. -/
theorem act_fill (c : Call) (sz : ℕ) : actAll soc c (fillProg sz) =
    ({ c with tx := c.eth.txBuffer + 42 } : Call).withMem
      (c.eth.mem.write (c.eth.txBuffer + 42) (c.buf.read 0 sz)) :=
  act_copy soc { c with tx := c.eth.txBuffer + 42 } sz

theorem ofFn_six (f : MacAddr) : List.ofFn f = [f 0, f 1, f 2, f 3, f 4, f 5] := rfl

theorem finRange_six : List.finRange 6 = [0, 1, 2, 3, 4, 5] := rfl

/-- A block of two bytes or more, its first byte written first. -/
theorem write_cons_cons (m : Mem) (a : ℕ) (v w : UInt8) (l : List UInt8) :
    m.write a (v :: w :: l) = (m.write a [v]).write (a + 1) (w :: l) := Mem.write_cons m a v _

theorem act_dest (c : Call) : actAll soc c destProg =
    c.withMem (c.eth.mem.write c.eth.txBuffer (List.ofFn c.eth.cachedMac)) := by
  simp only [actAll, destProg, finRange_six, List.map_cons, List.map_nil, List.foldl_cons,
    List.foldl_nil, Instr.act, Eth.put8, Mem.set_eq_write, Call.withMem, ofFn_six, write_cons_cons,
    Nat.add_assoc, Nat.reduceAdd]
  rfl

/-- The header statements before the first checksum. -/
def plainProg : List Instr := (List.finRange 6).map .srcMac ++
  [.etherType, .ipVersion, .ipDiffServices, .ipTotalLength, .ipIdentification, .ipFragmentOffset,
    .ipTtl, .ipProto, .ipChecksumZero, .ipSrc, .ipDst]

def ipSumProg : List Instr := [.ipSum, .ipChecksumStore]

def udpProg : List Instr := [.udpSrcPort, .udpDstPort, .udpLength, .udpChecksumZero]

def udpSumProg : List Instr := [.pseudoZero, .pseudoSum, .padOdd, .udpSum, .udpChecksumStore]

theorem headerProg_eq : headerProg = plainProg ++ ipSumProg ++ udpProg ++ udpSumProg := rfl

/-- The source address, the type and the IP header, its checksum still 0, are
one block; half of the pseudo header is filled on the way. -/
theorem act_plain (c : Call) : actAll soc c plainProg =
    { c.withMem (c.eth.mem.write (c.eth.txBuffer + 6)
        (List.ofFn c.eth.myMac ++ be16 0x0800 ++ ipHeader c.eth.myIp c.eth.cachedIp c.length 0)) with
      h := ((c.h.set 9 0x11).store32 0 (htonl c.eth.myIp)).store32 4 (htonl c.eth.cachedIp) } := by
  simp only [actAll, plainProg, finRange_six, List.map_cons, List.map_nil, List.cons_append,
    List.nil_append, List.foldl_cons, List.foldl_nil, Instr.act, Eth.put8, Eth.put16, Eth.put32]
  simp only [Mem.set_eq_write, Mem.store16_eq_write, Mem.store32_eq_write, htons_byte0, htons_byte1,
    htonl_byte0, htonl_byte1, htonl_byte2, htonl_byte3]
  simp only [ipHeader, be32, be16, ofFn_six, List.cons_append, List.nil_append, write_cons_cons,
    Nat.add_assoc, Nat.reduceAdd, Call.withMem]
  rfl

theorem act_ipSum (c : Call) : actAll soc c ipSumProg =
    { c.withMem (c.eth.mem.write (c.eth.txBuffer + 24)
        (be16 (Eth.ipChecksum 0 c.eth.mem (c.eth.txBuffer + 14) 20 true))) with
      ipSum := Eth.ipChecksum 0 c.eth.mem (c.eth.txBuffer + 14) 20 true } := by
  simp only [actAll, ipSumProg, List.foldl_cons, List.foldl_nil, Instr.act, Eth.put16,
    Mem.store16_eq_write, htons_byte0, htons_byte1, Call.withMem]
  rfl

theorem act_udp (c : Call) : actAll soc c udpProg =
    { c.withMem (c.eth.mem.write (c.eth.txBuffer + 34) (udpHeader c.srcPort c.dstPort c.length 0)) with
      h := c.h.store16 10 (htons (UInt16.ofNat (c.length + 8))) } := by
  simp only [actAll, udpProg, List.foldl_cons, List.foldl_nil, Instr.act, Eth.put16]
  simp only [Mem.store16_eq_write, htons_byte0, htons_byte1, udpHeader, be16, List.cons_append,
    List.nil_append, write_cons_cons, Nat.add_assoc, Nat.reduceAdd, Call.withMem]
  rfl

/-! ### The checksums -/

/-- The pseudo header, once every field of it is written. -/
theorem read_pseudo (h : Mem) (a b : UInt32) (len : ℕ) :
    (((((h.set 9 0x11).store32 0 (htonl a)).store32 4 (htonl b)).store16 10
      (htons (UInt16.ofNat (len + 8)))).set 8 0).read 0 12 = pseudoHeader a b len := by
  have h1 : (((((h.set 9 0x11).store32 0 (htonl a)).store32 4 (htonl b)).store16 10
      (htons (UInt16.ofNat (len + 8)))).set 8 0).read 0 12 =
      [(htonl a).toUInt8, (htonl a >>> 8).toUInt8, (htonl a >>> 16).toUInt8, (htonl a >>> 24).toUInt8,
        (htonl b).toUInt8, (htonl b >>> 8).toUInt8, (htonl b >>> 16).toUInt8, (htonl b >>> 24).toUInt8,
        0, 0x11, (htons (UInt16.ofNat (len + 8))).toUInt8, (htons (UInt16.ofNat (len + 8)) >>> 8).toUInt8] :=
    rfl
  rw [h1]
  simp only [htonl_byte0, htonl_byte1, htonl_byte2, htonl_byte3, htons_byte0, htons_byte1]
  rfl

theorem wordSum_lt_of_length {l : List UInt8} (h : l.length ≤ 2000) : wordSum l < 2 ^ 30 := by
  have := wordSum_le l
  omega

/-- The payload of an odd record is followed by a zero byte. -/
def padded (m : Mem) (a len : ℕ) : Mem := if len % 2 = 1 then m.set (a + len) 0 else m

/-- The length the UDP sum runs over, rounded up to even. -/
def evenLen (len : ℕ) : ℕ := if len % 2 = 1 then len + 1 else len

theorem act_udpSum (c : Call) : actAll soc c udpSumProg =
    { c.withMem ((padded c.eth.mem (c.eth.txBuffer + 42) c.length).write (c.eth.txBuffer + 40)
        (be16 (Eth.ipChecksum (Eth.ipChecksum 0 (c.h.set 8 0) 0 12 false).toUInt32
          (padded c.eth.mem (c.eth.txBuffer + 42) c.length) (c.eth.txBuffer + 34)
          (8 + evenLen c.length) true))) with
      h := c.h.set 8 0
      r := (Eth.ipChecksum (Eth.ipChecksum 0 (c.h.set 8 0) 0 12 false).toUInt32
          (padded c.eth.mem (c.eth.txBuffer + 42) c.length) (c.eth.txBuffer + 34)
          (8 + evenLen c.length) true).toUInt32
      length := evenLen c.length } := by
  by_cases h : c.length % 2 = 1
  all_goals
    simp only [actAll, udpSumProg, List.foldl_cons, List.foldl_nil, Instr.act, padded, evenLen, h,
      ↓reduceIte, Eth.put8, Eth.put16, Mem.store16_eq_write, htons_byte0, htons_byte1,
      UInt16.toUInt16_toUInt32, Call.withMem, Nat.add_assoc]
    rfl

theorem padded_apart (m : Mem) {a len x : ℕ} (h : x ≠ a + len) : padded m a len x = m x := by
  unfold padded
  split_ifs
  · exact Mem.set_ne m 0 h
  · rfl

/-- The words the UDP sum runs over are those of the header and the payload. -/
theorem wordSum_padded (m : Mem) (a len : ℕ) (u : List UInt8) (hu : u.length = 8)
    (hm : m.read a 8 = u) :
    wordSum ((padded m (a + 8) len).read a (8 + evenLen len)) =
      wordSum u + wordSum (m.read (a + 8) len) := by
  have hu8 : (padded m (a + 8) len).read a 8 = u := by
    rw [← hm]
    exact Mem.read_congr fun i hi => padded_apart m (by omega)
  have hp : (padded m (a + 8) len).read (a + 8) len = m.read (a + 8) len :=
    Mem.read_congr fun i hi => padded_apart m (by omega)
  rw [Mem.read_add, hu8, wordSum_append _ _ (by rw [hu]; decide)]
  congr 1
  unfold evenLen
  split_ifs with h
  · have hz : padded m (a + 8) len (a + 8 + len) = 0 := by simp [padded, h]
    rw [Mem.read_succ, hp, hz, wordSum_pad]
    rw [Mem.length_read, Nat.not_even_iff]
    exact h
  · rw [hp]

/-- The IP checksum of a header in memory. -/
theorem ipChecksum_of_read {m : Mem} {a : ℕ} {u : List UInt8} (h : m.read a 20 = u) :
    (Eth.ipChecksum 0 m a 20 true).toNat = complement (wordSum u) := by
  have hlt : wordSum u < 2 ^ 30 := wordSum_lt_of_length (by rw [← h, Mem.length_read]; omega)
  have hsum := Eth.ipChecksum_complete 0 m a 20
  simp only [Nat.reduceDiv, Nat.reduceMul, h, UInt32.toNat_zero, Nat.zero_add] at hsum
  exact hsum (by omega)

/-- The UDP checksum chains the sum of the pseudo header into that of the UDP
header and the padded payload. -/
theorem udpChecksum_of_read {ph m : Mem} {a len : ℕ} {ps u payload : List UInt8} (hps : ph.read 0 12 = ps)
    (hu : m.read a 8 = u) (hp : m.read (a + 8) len = payload) (hlen : len ≤ 1536) :
    (Eth.ipChecksum (Eth.ipChecksum 0 ph 0 12 false).toUInt32 (padded m (a + 8) len) a
      (8 + evenLen len) true).toNat = complement (wordSum ps + (wordSum u + wordSum payload)) := by
  have hps' : wordSum ps < 2 ^ 30 := wordSum_lt_of_length (by rw [← hps, Mem.length_read]; omega)
  have hu' : wordSum u < 2 ^ 30 := wordSum_lt_of_length (by rw [← hu, Mem.length_read]; omega)
  have hp' : wordSum payload < 2 ^ 30 := wordSum_lt_of_length (by rw [← hp, Mem.length_read]; omega)
  have hr : (Eth.ipChecksum 0 ph 0 12 false).toNat = residue (wordSum ps) := by
    have h := Eth.ipChecksum_sum 0 ph 0 12
    simp only [Nat.reduceDiv, Nat.reduceMul, hps, UInt32.toNat_zero, Nat.zero_add] at h
    exact h (by omega)
  have hsum : wordSum ((padded m (a + 8) len).read a (8 + evenLen len)) = wordSum u + wordSum payload := by
    rw [wordSum_padded m a len u (by rw [← hu, Mem.length_read]) hu, hp]
  have heven : 2 * ((8 + evenLen len) / 2) = 8 + evenLen len := by
    unfold evenLen; split_ifs <;> omega
  have hle := residue_le (wordSum ps)
  have h := Eth.ipChecksum_complete (Eth.ipChecksum 0 ph 0 12 false).toUInt32 (padded m (a + 8) len) a
    (8 + evenLen len)
  rw [heven, hsum, UInt16.toNat_toUInt32, hr] at h
  rw [h (by omega), complement, Nat.add_comm, residue_add, Nat.add_comm]

/-! ### The headers as one block -/

/-- The memory after the header statements: `front` from the source address to
the end of the IP header, its checksum, the UDP header, the padding byte and
the UDP checksum. -/
def headerMem (m : Mem) (b len : ℕ) (front udp : List UInt8) (ck ck' : UInt16) : Mem :=
  (padded (((m.write (b + 6) front).write (b + 24) (be16 ck)).write (b + 34) udp) (b + 42) len).write (b + 40)
    (be16 ck')

theorem headerMem_apart (m : Mem) {b len x : ℕ} {front udp : List UInt8} (ck ck' : UInt16)
    (hfront : front.length = 28) (hudp : udp.length = 8) (hx : x < b + 6 ∨ b + 43 + len ≤ x) :
    headerMem m b len front udp ck ck' x = m x := by
  unfold headerMem
  rw [Mem.write_apply_out _ _ (by simp [be16]; omega), padded_apart _ (by omega),
    Mem.write_apply_out _ _ (by omega), Mem.write_apply_out _ _ (by simp [be16]; omega),
    Mem.write_apply_out _ _ (by omega)]

theorem read_headerMem (m : Mem) (b len : ℕ) (mac : MacAddr) (src dst : UInt32) (sp dp ck ck' : UInt16) :
    (headerMem m b len (List.ofFn mac ++ be16 0x0800 ++ ipHeader src dst len 0) (udpHeader sp dp len 0)
      ck ck').read (b + 6) (36 + len) =
      List.ofFn mac ++ be16 0x0800 ++ ipHeader src dst len ck ++ udpHeader sp dp len ck' ++
        m.read (b + 42) len := by
  set front := List.ofFn mac ++ be16 0x0800 ++ ipHeader src dst len 0 with hfront
  have hlen : front.length = 28 := rfl
  set m3 := ((m.write (b + 6) front).write (b + 24) (be16 ck)).write (b + 34) (udpHeader sp dp len 0) with hm3
  have hm6 : headerMem m b len front (udpHeader sp dp len 0) ck ck' =
      (padded m3 (b + 42) len).write (b + 40) (be16 ck') := rfl
  have hpad : ∀ {x k : ℕ}, x + k ≤ b + 42 + len → (padded m3 (b + 42) len).read x k = m3.read x k := by
    intro x k hx
    exact Mem.read_congr fun i hi => padded_apart m3 (by omega)
  have h1 : ((padded m3 (b + 42) len).write (b + 40) (be16 ck')).read (b + 6) 28 =
      List.ofFn mac ++ be16 0x0800 ++ ipHeader src dst len ck := by
    rw [Mem.read_write_apart _ _ (by omega), hpad (by omega), hm3, Mem.read_write_apart _ _ (by omega),
      show b + 24 = b + 6 + 18 by omega,
      Mem.write_write_inside _ _ _ _ _ (by rw [hlen]; exact Nat.le_of_ble_eq_true rfl)]
    exact Mem.read_write m (b + 6) _
  have h2 : ((padded m3 (b + 42) len).write (b + 40) (be16 ck')).read (b + 34) 8 = udpHeader sp dp len ck' := by
    have h6 : m3.read (b + 34) 6 = (udpHeader sp dp len 0).take 6 := by
      rw [← Mem.read_write ((m.write (b + 6) front).write (b + 24) (be16 ck)) (b + 34) (udpHeader sp dp len 0),
        Mem.take_read]
      rfl
    rw [show 8 = 6 + 2 by rfl, Mem.read_add, Mem.read_write_apart _ _ (by omega), hpad (by omega),
      show b + 34 + 6 = b + 40 by omega, show 2 = (be16 ck').length by rfl, Mem.read_write, h6]
    rfl
  have h3 : ((padded m3 (b + 42) len).write (b + 40) (be16 ck')).read (b + 42) len = m.read (b + 42) len := by
    rw [Mem.read_write_apart _ _ (by simp [be16]), hpad (by omega), hm3,
      Mem.read_write_apart _ _ (by rw [length_udpHeader]; omega), Mem.read_write_apart _ _ (by simp [be16]),
      Mem.read_write_apart _ _ (by omega)]
  rw [hm6, Mem.read_add, show 36 = 28 + 8 by rfl, Mem.read_add, h1, show b + 6 + 28 = b + 34 by omega, h2,
    show b + 6 + (28 + 8) = b + 42 by omega, h3]

/-- What the header statements leave behind: the headers, with the complements
of their sums as checksums, right before the payload; and nothing else of the
memory changed but the byte after the payload. -/
structure HeaderBuilt (c c' : Call) : Prop where
  eth : c'.eth = { c.eth with mem := c'.eth.mem }
  ret : c'.ret = c.ret
  sz : c'.sz = c.sz
  bytes : ∃ ck ck' : UInt16,
    ck.toNat = complement (wordSum (ipHeader c.eth.myIp c.eth.cachedIp c.length 0)) ∧
    ck'.toNat = complement (wordSum (pseudoHeader c.eth.myIp c.eth.cachedIp c.length) +
      (wordSum (udpHeader c.srcPort c.dstPort c.length 0) +
        wordSum (c.eth.mem.read (c.eth.txBuffer + 42) c.length))) ∧
    c'.eth.mem.read (c.eth.txBuffer + 6) (36 + c.length) =
      List.ofFn c.eth.myMac ++ be16 0x0800 ++ ipHeader c.eth.myIp c.eth.cachedIp c.length ck ++
        udpHeader c.srcPort c.dstPort c.length ck' ++ c.eth.mem.read (c.eth.txBuffer + 42) c.length
  apart : ∀ x, x < c.eth.txBuffer + 6 ∨ c.eth.txBuffer + 43 + c.length ≤ x →
    c'.eth.mem x = c.eth.mem x

theorem header_spec (c : Call) (hlen : c.length ≤ 1536) :
    HeaderBuilt c (actAll soc c headerProg) := by
  set b := c.eth.txBuffer with hb
  set front := List.ofFn c.eth.myMac ++ be16 0x0800 ++ ipHeader c.eth.myIp c.eth.cachedIp c.length 0 with hfront
  have hflen : front.length = 28 := rfl
  set m1 := c.eth.mem.write (b + 6) front with hm1
  set ck := Eth.ipChecksum 0 m1 (b + 14) 20 true with hck
  set m3 := (m1.write (b + 24) (be16 ck)).write (b + 34) (udpHeader c.srcPort c.dstPort c.length 0) with hm3
  set h4 := ((((c.h.set 9 0x11).store32 0 (htonl c.eth.myIp)).store32 4 (htonl c.eth.cachedIp)).store16 10
    (htons (UInt16.ofNat (c.length + 8)))).set 8 0 with hh4
  set ck' := Eth.ipChecksum (Eth.ipChecksum 0 h4 0 12 false).toUInt32 (padded m3 (b + 42) c.length) (b + 34)
    (8 + evenLen c.length) true with hck'
  -- the checksum statements find what the plain ones have written
  have hip : m1.read (b + 14) 20 = ipHeader c.eth.myIp c.eth.cachedIp c.length 0 := by
    rw [hm1, show b + 14 = b + 6 + 8 by omega, Mem.read_write_drop _ _ _ (by omega)]
    rfl
  have hudp : m3.read (b + 34) 8 = udpHeader c.srcPort c.dstPort c.length 0 := Mem.read_write _ _ _
  have hpay : m3.read (b + 34 + 8) c.length = c.eth.mem.read (b + 42) c.length := by
    rw [show b + 34 + 8 = b + 42 by omega, hm3, Mem.read_write_apart _ _ (by rw [length_udpHeader]; omega),
      Mem.read_write_apart _ _ (by simp [be16]), hm1, Mem.read_write_apart _ _ (by omega)]
  have hrun : actAll soc c headerProg =
      { c.withMem (headerMem c.eth.mem b c.length front (udpHeader c.srcPort c.dstPort c.length 0) ck ck') with
        h := h4, ipSum := ck, r := ck'.toUInt32, length := evenLen c.length } := by
    rw [headerProg_eq, actAll_append, actAll_append, actAll_append, act_plain, act_ipSum, act_udp,
      act_udpSum]
    rfl
  rw [hrun]
  refine ⟨rfl, rfl, rfl, ⟨ck, ck', ipChecksum_of_read hip, ?_, ?_⟩, ?_⟩
  · exact udpChecksum_of_read (read_pseudo c.h c.eth.myIp c.eth.cachedIp c.length) hudp hpay hlen
  · exact read_headerMem c.eth.mem b c.length c.eth.myMac c.eth.myIp c.eth.cachedIp c.srcPort c.dstPort ck ck'
  · exact fun x hx => headerMem_apart c.eth.mem ck ck' hflen (length_udpHeader _ _ _ _) hx

/-! ### The start write -/

/-- The state a send has reached once the frame length is set: the record is in
its place, the headers are not yet. -/
structure Filled (c : Call) (payload : List UInt8) : Prop where
  running : c.ret = none
  length : c.length = payload.length
  small : payload.length ≤ 1536
  txLen : c.eth.txLen = max 60 (payload.length + 42)
  ok : c.eth.TxOk soc
  payload : c.eth.mem.read (c.eth.txBuffer + 42) payload.length = payload

theorem start_eth (c : Call) : (actAll soc c startProg).eth =
    { c.eth with
      readerSlot := c.eth.txSlot
      readerLength := c.eth.txLen
      started := c.eth.started ++
        [⟨c.eth.txSlot, c.eth.txLen, c.eth.mem.read (soc.txAddr c.eth.txSlot) c.eth.txLen⟩] } := rfl

theorem start_ret (c : Call) : (actAll soc c startProg).ret = c.ret := by
  simp only [actAll, startProg, List.foldl_cons, List.foldl_nil, Instr.act]

theorem start_sz (c : Call) : (actAll soc c startProg).sz = c.sz := by
  simp only [actAll, startProg, List.foldl_cons, List.foldl_nil, Instr.act]

/-- The statements from the first header byte to the start write. -/
def buildProg : List Instr := destProg ++ headerProg ++ startProg

theorem buildProg_last : buildProg = buildProg.dropLast ++ [.startWrite] := rfl

theorem buildProg_falls : ∀ i ∈ buildProg, i.Falls := by
  have hno : ∀ i ∈ buildProg, i ≠ .returnIfZero ∧ i ≠ .done := by decide
  intro i hi
  obtain ⟨hzero, hdone⟩ := hno i hi
  cases i with
  | returnIfZero => exact hzero rfl
  | done => exact hdone rfl
  | _ => trivial

/-- **The start write hands over a UDP frame.** From a filled slot, the headers
and the three register writes make one start write, of a frame that carries
the record to the address in the ARP cache. -/
theorem start_frame {c : Call} {payload : List UInt8} (h : Filled soc c payload) :
    ∃ fr : TxStart, (execAll soc c buildProg).eth =
        { c.eth with
          mem := (execAll soc c buildProg).eth.mem
          readerSlot := c.eth.txSlot
          readerLength := c.eth.txLen
          started := c.eth.started ++ [fr] } ∧
      fr.slot = c.eth.txSlot ∧ fr.length = max 60 (payload.length + 42) ∧
      fr.frame = (execAll soc c buildProg).eth.mem.read (soc.txAddr c.eth.txSlot) fr.length ∧
      IsUdpFrame fr.frame c.eth.cachedMac c.eth.myIp c.eth.cachedIp c.srcPort c.dstPort payload ∧
      (execAll soc c buildProg).ret = none ∧ (execAll soc c buildProg).sz = c.sz ∧
      ∀ x, x < c.eth.txBuffer ∨ c.eth.txBuffer + 43 + payload.length ≤ x →
        (execAll soc c buildProg).eth.mem x = c.eth.mem x := by
  obtain ⟨hret, hlen, hsmall, htxLen, hok, hpay⟩ := h
  set b := c.eth.txBuffer with hb
  -- the destination address
  set m1 := c.eth.mem.write b (List.ofFn c.eth.cachedMac) with hm1
  have hpay1 : m1.read (b + 42) payload.length = payload := by
    rw [hm1, Mem.read_write_apart _ _ (by simp), hpay]
  -- the other headers
  have hh := header_spec soc (c.withMem m1) (by show c.length ≤ 1536; omega)
  set c2 := actAll soc (c.withMem m1) headerProg with hc2
  have heth : c2.eth = { c.eth with mem := c2.eth.mem } := hh.eth
  obtain ⟨ck, ck', hck, hck', hbytes⟩ := hh.bytes
  simp only [Call.withMem, ← hb, hlen, hpay1] at hck hck' hbytes
  have happ : ∀ x, x < b + 6 ∨ b + 43 + payload.length ≤ x → c2.eth.mem x = m1 x := by
    intro x hx
    exact hh.apart x (by simpa only [Call.withMem, ← hb, hlen] using hx)
  have hexec : execAll soc c buildProg = actAll soc c2 startProg := by
    rw [execAll_eq_actAll soc _ c hret buildProg_falls, buildProg, actAll_append, actAll_append,
      act_dest]
  have hmem : (execAll soc c buildProg).eth.mem = c2.eth.mem := by rw [hexec, start_eth]
  have hsplit : c2.eth.mem.read (soc.txAddr c.eth.txSlot) (max 60 (payload.length + 42)) =
      ethHeader c.eth.cachedMac c.eth.myMac ++
        ipHeader c.eth.myIp c.eth.cachedIp payload.length ck ++
        udpHeader c.srcPort c.dstPort payload.length ck' ++ payload ++
        c2.eth.mem.read (b + 42 + payload.length) (max 60 (payload.length + 42) - (payload.length + 42)) := by
    have hdest : c2.eth.mem.read b 6 = List.ofFn c.eth.cachedMac := by
      rw [Mem.read_congr fun i hi => happ (b + i) (by omega)]
      exact Mem.read_write c.eth.mem b _
    obtain ⟨k, hk⟩ : ∃ k, max 60 (payload.length + 42) = 6 + (36 + payload.length) + k :=
      ⟨max 60 (payload.length + 42) - (payload.length + 42), by omega⟩
    rw [← hok.buffer, ← hb, hk, Mem.read_add, Mem.read_add, hdest, hbytes, ethHeader,
      show 6 + (36 + payload.length) + k - (payload.length + 42) = k by omega,
      show b + (6 + (36 + payload.length)) = b + 42 + payload.length by omega]
    simp only [List.append_assoc]
  refine ⟨⟨c.eth.txSlot, max 60 (payload.length + 42),
    (execAll soc c buildProg).eth.mem.read (soc.txAddr c.eth.txSlot) (max 60 (payload.length + 42))⟩,
    ?_, rfl, rfl, rfl, ?_, ?_, ?_, ?_⟩
  · rw [hmem, hexec, start_eth, heth, htxLen]
  · rw [hmem, hsplit]
    exact isUdpFrame_of_parts (by omega) (by simp) hck hck'
  · rw [hexec, start_ret, hh.ret]; exact hret
  · rw [hexec, start_sz, hh.sz]; rfl
  · intro x hx
    rw [hmem, happ x (by omega), hm1, Mem.write_apply_out _ _ (by simp; omega)]

/-! ### The whole send -/

/-- The ARP cache holds no address. -/
def Eth.Unresolved (e : Eth) : Prop := ∀ i, e.cachedMac i = 0

instance (e : Eth) : Decidable e.Unresolved := inferInstanceAs (Decidable (∀ i, e.cachedMac i = 0))

theorem act_testMac (c : Call) : actAll soc c ((List.finRange 6).map .testMac) =
    { c with macZero := c.macZero && decide c.eth.Unresolved } := by
  have h : decide c.eth.Unresolved = (c.eth.cachedMac 0 == 0 && c.eth.cachedMac 1 == 0 &&
      c.eth.cachedMac 2 == 0 && c.eth.cachedMac 3 == 0 && c.eth.cachedMac 4 == 0 &&
      c.eth.cachedMac 5 == 0) := by
    rw [Bool.eq_iff_iff]
    simp [Eth.Unresolved, Fin.forall_fin_succ, and_assoc]
  rw [h]
  simp only [actAll, finRange_six, List.map_cons, List.map_nil, List.foldl_cons, List.foldl_nil,
    Instr.act, Bool.and_assoc]

theorem execAll_testMac {c : Call} (hret : c.ret = none) : execAll soc c ((List.finRange 6).map .testMac) =
    { c with macZero := c.macZero && decide c.eth.Unresolved } := by
  rw [execAll_eq_actAll soc _ c hret (by simp [Instr.Falls]), act_testMac]

/-- With an address in the cache the send goes on, with the frame length set. -/
theorem execAll_check {c : Call} (hret : c.ret = none) (h : ¬ c.eth.Unresolved) :
    execAll soc c checkProg =
      { c with eth := { c.eth with txLen := max 60 (c.length + 42) }, macZero := false } := by
  rw [checkProg, execAll_append, execAll_testMac soc hret, decide_eq_false h, Bool.and_false]
  by_cases h60 : c.length + 42 < 60
  · have hm : max 60 (c.length + 42) = 60 := by omega
    simp [execAll, Instr.exec, Instr.act, hret, h60, hm]
  · have hm : max 60 (c.length + 42) = c.length + 42 := by omega
    simp [execAll, Instr.exec, Instr.act, hret, h60, hm]

/-- A call that has returned stays as it is. -/
theorem execAll_returned {c : Call} (h : c.ret.isSome) : ∀ is, execAll soc c is = c
  | [] => rfl
  | i :: is => by
    have : execAll soc c (i :: is) = execAll soc c is := by
      simp only [execAll, List.foldl_cons, Instr.exec, h, ↓reduceIte]
    rw [this]
    exact execAll_returned h is

/-- With an empty cache the send returns before it touches the headers. -/
theorem execAll_check_unresolved {c : Call} (hret : c.ret = none) (hz : c.macZero = true)
    (h : c.eth.Unresolved) : execAll soc c checkProg = { c with ret := some cbioErrWantWrite } := by
  rw [checkProg, execAll_append, execAll_testMac soc hret, decide_eq_true h, hz]
  have hstop : Instr.exec soc { c with macZero := true && true } .returnIfZero =
      { c with macZero := true, ret := some cbioErrWantWrite } := by
    simp [Instr.exec, Instr.act, hret]
  have hrest := execAll_returned soc (c := { c with macZero := true, ret := some cbioErrWantWrite }) rfl
  rw [← hrest [.txLen, .padTxLen]]
  simp only [execAll, List.foldl_cons, hstop]

theorem sendProg_eq (sz : ℕ) : sendProg sz = fillProg sz ++ checkProg ++ buildProg ++ finishProg := by
  simp only [sendProg, buildProg, List.append_assoc]

theorem fillProg_falls (sz : ℕ) : ∀ i ∈ fillProg sz, i.Falls := by
  intro i hi
  simp only [fillProg, List.mem_cons, List.mem_map, List.mem_range] at hi
  rcases hi with rfl | ⟨j, _, rfl⟩ <;> trivial

theorem execAll_finish {c : Call} (hret : c.ret = none) : execAll soc c finishProg =
    { c with eth := (c.eth.nextSlot soc).nextBuffer soc, ret := some c.sz } := by
  simp [execAll, finishProg, Instr.exec, Instr.act, hret]

/-- The record is behind the headers and the cache is not empty. -/
theorem filled_of_fill {e : Eth} (buf : Mem) {sz : ℕ} (sp dp : UInt16) (hok : e.TxOk soc)
    (hsz : sz ≤ 1536) (hm : ¬ e.Unresolved) :
    Filled soc (execAll soc (Call.start e buf sz sp dp) (fillProg sz ++ checkProg)) (buf.read 0 sz) ∧
    (execAll soc (Call.start e buf sz sp dp) (fillProg sz ++ checkProg)) =
      { Call.start e buf sz sp dp with
        eth := { e with
          mem := e.mem.write (e.txBuffer + 42) (buf.read 0 sz)
          txLen := max 60 (sz + 42) }
        tx := e.txBuffer + 42
        macZero := false } := by
  have hrun : execAll soc (Call.start e buf sz sp dp) (fillProg sz ++ checkProg) =
      { Call.start e buf sz sp dp with
        eth := { e with
          mem := e.mem.write (e.txBuffer + 42) (buf.read 0 sz)
          txLen := max 60 (sz + 42) }
        tx := e.txBuffer + 42
        macZero := false } := by
    rw [execAll_append, execAll_eq_actAll soc _ _ rfl (fillProg_falls sz), act_fill,
      execAll_check soc (by rfl) (by exact hm)]
    rfl
  refine ⟨?_, hrun⟩
  rw [hrun]
  refine ⟨rfl, by simp [Call.start], by simpa using hsz, by simp, ⟨hok.slot_lt, hok.buffer⟩, ?_⟩
  exact Mem.read_write e.mem (e.txBuffer + 42) (buf.read 0 sz)

/-- **A send that nothing interrupts** returns its size after one start write,
of a UDP frame with the record as its payload, and leaves the transmit index
and buffer at the next slot. -/
theorem send_spec {e : Eth} (buf : Mem) {sz : ℕ} (sp dp : UInt16) (hok : e.TxOk soc)
    (hsz : sz ≤ 1536) (hm : ¬ e.Unresolved) :
    ∃ fr : TxStart, ∃ m : Mem,
      (execAll soc (Call.start e buf sz sp dp) (sendProg sz)).ret = some (sz : ℤ) ∧
      (execAll soc (Call.start e buf sz sp dp) (sendProg sz)).eth =
        { e with
          mem := m
          txLen := max 60 (sz + 42)
          readerSlot := e.txSlot
          readerLength := max 60 (sz + 42)
          started := e.started ++ [fr]
          txSlot := (e.txSlot + 1) % soc.txSlots
          txBuffer := soc.txAddr ((e.txSlot + 1) % soc.txSlots) } ∧
      fr.slot = e.txSlot ∧ fr.length = max 60 (sz + 42) ∧
      IsUdpFrame fr.frame e.cachedMac e.myIp e.cachedIp sp dp (buf.read 0 sz) := by
  obtain ⟨hfilled, hrun⟩ := filled_of_fill soc buf sp dp hok hsz hm
  obtain ⟨fr, heth, hslot, hlen, -, hframe, hret, hsz', -⟩ := start_frame soc hfilled
  rw [sendProg_eq, execAll_append, execAll_append _ _ (fillProg sz ++ checkProg), execAll_finish soc hret]
  generalize execAll soc (execAll soc (Call.start e buf sz sp dp) (fillProg sz ++ checkProg)) buildProg =
    c' at heth hsz'
  generalize c'.eth.mem = m at heth
  refine ⟨fr, m, ?_, ?_, ?_, ?_, ?_⟩
  · simp only [hsz', hrun]
    rfl
  · simp only [Eth.nextSlot, Eth.nextBuffer, heth, hrun]
  · rw [hslot, hrun]
  · simpa using hlen
  · rw [hrun] at hframe
    exact hframe

/-- **A send with an empty ARP cache** returns `WANT_WRITE`; of the stack only
the payload bytes of the transmit slot have changed. -/
theorem send_unresolved {e : Eth} (buf : Mem) (sz : ℕ) (sp dp : UInt16) (hm : e.Unresolved) :
    (execAll soc (Call.start e buf sz sp dp) (sendProg sz)).ret = some cbioErrWantWrite ∧
    (execAll soc (Call.start e buf sz sp dp) (sendProg sz)).eth =
      { e with mem := e.mem.write (e.txBuffer + 42) (buf.read 0 sz) } := by
  obtain ⟨c, hc, hret, heth⟩ : ∃ c, execAll soc (Call.start e buf sz sp dp) (fillProg sz ++ checkProg) = c ∧
      c.ret = some cbioErrWantWrite ∧
      c.eth = { e with mem := e.mem.write (e.txBuffer + 42) (buf.read 0 sz) } := by
    refine ⟨_, rfl, ?_⟩
    rw [execAll_append, execAll_eq_actAll soc _ _ rfl (fillProg_falls sz), act_fill,
      execAll_check_unresolved soc rfl rfl (by exact hm)]
    exact ⟨rfl, rfl⟩
  have hsome : c.ret.isSome := by rw [hret]; rfl
  rw [sendProg_eq, execAll_append, execAll_append _ _ (fillProg sz ++ checkProg), hc,
    execAll_returned soc hsome, execAll_returned soc hsome]
  exact ⟨hret, heth⟩

end PqcDtls
