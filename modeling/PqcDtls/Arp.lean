/-
# Finding the server's address

`udp_arp_resolve`, which `main` calls until it succeeds: it sends up to eight ARP
requests and polls `udp_service` a hundred thousand times after each. What it learns
is decided by the frames that are served on the way, and by them alone
(`service_cachedMac`): the first ARP reply in the name of the address that does not
say zero.

* `arp_request_answered`: a request that a node sends for the address of another one
  is answered there with one frame, which tells the first node, or any that waits for
  that address, where the other one is.
* `resolves_to_first_reply`: over every sequence of frames, `udp_arp_resolve` succeeds exactly
  when such a reply is among them, and the first one is what it learns.
-/
import PqcDtls.SendFrame
import PqcDtls.Receive

namespace PqcDtls

open Lib

variable (soc : Soc)

/-! ### The request -/

/-- The ARP request of `udp_arp_resolve`, built in the transmit slot and sent. -/
def Eth.arpRequest (s : Eth) (ip : UInt32) : Eth :=
  let s := s.fillEthHeader (fun _ => 0xff) s.myMac 0x0806
  let s := { s with txLen := 60 }
  let s := s.put16 14 (htons 1)
  let s := s.put16 16 (htons 0x0800)
  let s := s.put8 18 6
  let s := s.put8 19 4
  let s := s.put16 20 (htons 1)
  let s := s.put32 28 (htonl s.myIp)
  let s := (List.range 18).foldl (fun s i => s.put8 (42 + i) 0) s
  let s := s.putMac 22 s.myMac
  let s := s.put32 38 (htonl ip)
  let s := s.putMac 32 (fun _ => 0)
  s.sendPacket soc

namespace Node

/-- `udp_service`, when the MAC has this frame in that slot, or none. -/
def udpService (n : Node) : Option (ℕ × List UInt8) → Node
  | none => n
  | some (slot, frame) => (n.store slot frame).service soc slot frame.length

/-- The loop that waits for a reply, over what each `udp_service` finds. -/
def arpWait (n : Node) : List (Option (ℕ × List UInt8)) → Node × Bool
  | [] => (n, false)
  | arrival :: rest =>
    let n := n.udpService soc arrival
    if n.eth.Unresolved then arpWait n rest else (n, true)

/-- The loop over the tries. -/
def arpTries (ip : UInt32) (n : Node) : List (List (Option (ℕ × List UInt8))) → Node × Bool
  | [] => (n, false)
  | arrivals :: rest =>
    match arpWait soc { n with eth := n.eth.arpRequest soc ip } arrivals with
    | (n, true) => (n, true)
    | (n, false) => arpTries ip n rest

/-- `udp_arp_resolve`; `arrivals i j` is what `udp_service` number `j` finds after
request number `i`. -/
def udpArpResolve (n : Node) (ip : UInt32) (arrivals : ℕ → ℕ → Option (ℕ × List UInt8)) : Node × Bool :=
  if n.eth.cachedIp = ip ∧ ¬n.eth.Unresolved then (n, true)
  else arpTries soc ip { n with eth := { n.eth with cachedIp := ip, cachedMac := fun _ => 0 } }
    ((List.range 8).map fun i => (List.range 100000).map (arrivals i))

end Node

/-! ### What is sent -/

/-- An ARP packet of the stack in its frame, with the padding. -/
def arpFrame (dst : MacAddr) (opcode : UInt16) (senderMac : MacAddr) (senderIp : UInt32) (targetMac : MacAddr)
    (targetIp : UInt32) : List UInt8 :=
  List.ofFn dst ++ List.ofFn senderMac ++ be16 0x0806 ++ be16 1 ++ be16 0x0800 ++ [6, 4] ++ be16 opcode ++
    List.ofFn senderMac ++ be32 senderIp ++ List.ofFn targetMac ++ be32 targetIp ++ List.replicate 18 0

theorem length_be32 (v : UInt32) : (be32 v).length = 4 := rfl

theorem be32_inj {v w : UInt32} : be32 v = be32 w ↔ v = w := by
  refine ⟨fun h => ?_, congrArg be32⟩
  simp only [be32, List.cons.injEq, and_true] at h
  rw [← UInt32.toNat_inj, ← be32_toNat v, ← be32_toNat w, h.1, h.2.1, h.2.2.1, h.2.2.2]

/-- The parts of the packet make one block, whatever the order they are written in. -/
theorem write_arpFrame (m : Mem) (b : ℕ) (dst : MacAddr) (opcode : UInt16) (senderMac : MacAddr) (senderIp : UInt32)
    (targetMac : MacAddr) (targetIp : UInt32) :
    (((((m.write b (List.ofFn dst ++ List.ofFn senderMac ++ be16 0x0806 ++ be16 1 ++ be16 0x0800 ++ [6, 4] ++
      be16 opcode)).write (b + 28) (be32 senderIp)).write (b + 42) (List.replicate 18 0)).write (b + 22)
      (List.ofFn senderMac)).write (b + 38) (be32 targetIp)).write (b + 32) (List.ofFn targetMac) =
    m.write b (arpFrame dst opcode senderMac senderIp targetMac targetIp) := by
  rw [Mem.write_comm _ (b + 42) (b + 22) (by simp), Mem.write_comm _ (b + 28) (b + 22) (by simp),
    Mem.write_comm _ (b + 42) (b + 38) (by simp [length_be32]), Mem.write_comm _ (b + 42) (b + 32) (by simp),
    Mem.write_comm _ (b + 38) (b + 32) (by simp)]
  unfold arpFrame
  simp only [Mem.write_append, List.length_append, List.length_ofFn, length_be32, be16, List.length_cons,
    List.length_nil, Nat.reduceAdd]

namespace Eth

/-- The node with another memory. -/
def withMem (s : Eth) (m : Mem) : Eth := { s with mem := m }

theorem putMac_eq (s : Eth) (off : ℕ) (a : MacAddr) :
    s.putMac off a = s.withMem (s.mem.write (s.txBuffer + off) (List.ofFn a)) := by
  simp only [putMac, finRange_six, List.foldl_cons, List.foldl_nil, put8, Mem.set_eq_write, withMem, ofFn_six,
    write_cons_cons, Nat.add_assoc]
  rfl

theorem pad_eq (s : Eth) (off : ℕ) : ∀ k, (List.range k).foldl (fun s i => s.put8 (off + i) 0) s =
    s.withMem (s.mem.write (s.txBuffer + off) (List.replicate k 0))
  | 0 => by simp [withMem, Mem.write_nil]
  | k + 1 => by
    rw [List.range_succ, List.foldl_append, pad_eq s off k, List.replicate_succ', Mem.write_append]
    simp [put8, withMem, Mem.set_eq_write, Nat.add_assoc]

/-- The fields that a request and a reply share, up to the sender's address. -/
def arpHead (s : Eth) (dst : MacAddr) (opcode : UInt16) : Eth :=
  let s := s.fillEthHeader dst s.myMac 0x0806
  let s := { s with txLen := 60 }
  let s := s.put16 14 (htons 1)
  let s := s.put16 16 (htons 0x0800)
  let s := s.put8 18 6
  let s := s.put8 19 4
  let s := s.put16 20 (htons opcode)
  let s := s.put32 28 (htonl s.myIp)
  let s := (List.range 18).foldl (fun s i => s.put8 (42 + i) 0) s
  s.putMac 22 s.myMac

theorem arpHead_eq (s : Eth) (dst : MacAddr) (opcode : UInt16) : s.arpHead dst opcode =
    { s with
      mem := (((s.mem.write s.txBuffer (List.ofFn dst ++ List.ofFn s.myMac ++ be16 0x0806 ++ be16 1 ++ be16 0x0800 ++
        [6, 4] ++ be16 opcode)).write (s.txBuffer + 28) (be32 s.myIp)).write (s.txBuffer + 42)
        (List.replicate 18 0)).write (s.txBuffer + 22) (List.ofFn s.myMac)
      txLen := 60 } := by
  have hsizes : ([6, 4] : List UInt8) = [6] ++ [4] := rfl
  unfold arpHead fillEthHeader
  simp only [putMac_eq, pad_eq]
  simp only [put8, put16, put32, withMem, Mem.set_eq_write, Mem.store16_eq_write, Mem.store32_eq_write, htons_byte0,
    htons_byte1, htonl_byte0, htonl_byte1, htonl_byte2, htonl_byte3]
  simp only [be16, be32, hsizes, Mem.write_append, List.length_append, List.length_ofFn, List.length_cons,
    List.length_nil, Nat.reduceAdd, Nat.add_zero]

/-- The rest of the packet. -/
theorem arpTail_eq (s : Eth) (dst : MacAddr) (opcode : UInt16) (targetMac : MacAddr) (targetIp : UInt32) :
    ((s.arpHead dst opcode).put32 38 (htonl targetIp)).putMac 32 targetMac =
    { s with
      mem := s.mem.write s.txBuffer (arpFrame dst opcode s.myMac s.myIp targetMac targetIp)
      txLen := 60 } := by
  rw [putMac_eq, put32, Mem.store32_eq_write, htonl_byte0, htonl_byte1, htonl_byte2, htonl_byte3, arpHead_eq,
    ← write_arpFrame]
  rfl

/-- The request is built in the transmit slot. -/
theorem arpRequest_eq (s : Eth) (ip : UInt32) : s.arpRequest soc ip =
    ({ s with
      mem := s.mem.write s.txBuffer (arpFrame (fun _ => 0xff) 1 s.myMac s.myIp (fun _ => 0) ip)
      txLen := 60 } : Eth).sendPacket soc := by
  rw [← arpTail_eq]
  rfl

/-- What lies below the transmit slot stays while the packet is built. -/
theorem arpHead_mem (s : Eth) (dst : MacAddr) (opcode : UInt16) {x : ℕ} (h : x < s.txBuffer) :
    (s.arpHead dst opcode).mem x = s.mem x := by
  rw [arpHead_eq]
  dsimp only
  rw [Mem.write_apply_out _ _ (by omega), Mem.write_apply_out _ _ (by omega), Mem.write_apply_out _ _ (by omega),
    Mem.write_apply_out _ _ (by omega)]

/-- A write behind the received frame leaves its addresses. -/
theorem rxMac_put32 (s : Eth) {off k : ℕ} (v : UInt32) (h : s.rxBuffer + (k + 6) ≤ s.txBuffer + off) :
    (s.put32 off v).rxMac k = s.rxMac k := by
  funext i
  unfold rxMac put32
  dsimp only
  rw [Mem.store32_eq_write, Mem.write_apply_out _ _ (by omega)]

/-- The reply is built in the transmit slot from the sender's addresses, which the code
reads between its writes: the request lies in another slot. -/
theorem arpReply_eq {s : Eth} (h : s.rxBuffer + 60 ≤ s.txBuffer) : s.arpReply soc =
    ({ s with
      mem := s.mem.write s.txBuffer
        (arpFrame (s.rxMac 22) 2 s.myMac s.myIp (s.rxMac 22) (ntohl (s.rx32 28)))
      txLen := 60 } : Eth).sendPacket soc := by
  have hcode : s.arpReply soc = (((s.arpHead (s.rxMac 22) 2).put32 38
      (htonl (ntohl ((s.arpHead (s.rxMac 22) 2).rx32 28)))).putMac 32
      (((s.arpHead (s.rxMac 22) 2).put32 38
        (htonl (ntohl ((s.arpHead (s.rxMac 22) 2).rx32 28)))).rxMac 22)).sendPacket soc := rfl
  rw [hcode, ← arpTail_eq]
  have hrx : (s.arpHead (s.rxMac 22) 2).rxBuffer = s.rxBuffer := by rw [arpHead_eq]
  have htx : (s.arpHead (s.rxMac 22) 2).txBuffer = s.txBuffer := by rw [arpHead_eq]
  have hmem : ∀ x, x < s.txBuffer → (s.arpHead (s.rxMac 22) 2).mem x = s.mem x := fun x => arpHead_mem s _ _
  generalize s.arpHead (s.rxMac 22) 2 = t at hrx htx hmem
  have hip : t.rx32 28 = s.rx32 28 := by
    unfold rx32 Mem.load32
    rw [hrx, hmem _ (by omega), hmem _ (by omega), hmem _ (by omega), hmem _ (by omega)]
  have hmac : t.rxMac 22 = s.rxMac 22 := by
    funext i
    unfold rxMac
    rw [hrx, hmem _ (by omega)]
  rw [rxMac_put32 t _ (by omega), hmac, hip]

/-- Sending starts one frame, the bytes of the slot. -/
theorem started_sendPacket {s : Eth} (h : s.TxOk soc) {m : Mem} {f : List UInt8} :
    (({ s with mem := m.write s.txBuffer f, txLen := f.length } : Eth).sendPacket soc).started =
      s.started ++ [⟨s.txSlot, f.length, f⟩] := by
  show s.started ++ [⟨s.txSlot, f.length, (m.write s.txBuffer f).read (soc.txAddr s.txSlot) f.length⟩] = _
  rw [← h.buffer, Mem.read_write]

end Eth

theorem length_arpFrame (dst : MacAddr) (opcode : UInt16) (senderMac : MacAddr) (senderIp : UInt32)
    (targetMac : MacAddr) (targetIp : UInt32) :
    (arpFrame dst opcode senderMac senderIp targetMac targetIp).length = 60 := by
  simp [arpFrame, be16, be32]

/-! ### What a frame tells -/

/-- The address an ARP packet gives for its sender. -/
def senderMac (f : List UInt8) : MacAddr := fun i => f.getD (22 + i) 0

/-- The frame is an ARP packet with this opcode, by the tests of `process_frame` and
`process_arp`. -/
structure IsArp (opcode : ℕ) (f : List UInt8) : Prop where
  length : 60 ≤ f.length
  etherType : field16 f 12 = 0x0806
  hwType : field16 f 14 = 1
  protocol : field16 f 16 = 0x0800
  hwSize : f.getD 18 0 = 6
  protoSize : f.getD 19 0 = 4
  opcode : field16 f 20 = opcode

theorem isArp_iff (opcode : ℕ) (f : List UInt8) : IsArp opcode f ↔ 60 ≤ f.length ∧ field16 f 12 = 0x0806 ∧
    field16 f 14 = 1 ∧ field16 f 16 = 0x0800 ∧ f.getD 18 0 = 6 ∧ f.getD 19 0 = 4 ∧ field16 f 20 = opcode :=
  ⟨fun ⟨h1, h2, h3, h4, h5, h6, h7⟩ => ⟨h1, h2, h3, h4, h5, h6, h7⟩,
    fun ⟨h1, h2, h3, h4, h5, h6, h7⟩ => ⟨h1, h2, h3, h4, h5, h6, h7⟩⟩

instance (opcode : ℕ) (f : List UInt8) : Decidable (IsArp opcode f) := decidable_of_iff' _ (isArp_iff opcode f)

theorem isArp_arpFrame (dst : MacAddr) (opcode : UInt16) (mac : MacAddr) (ip : UInt32) (targetMac : MacAddr)
    (targetIp : UInt32) : IsArp opcode.toNat (arpFrame dst opcode mac ip targetMac targetIp) := by
  refine ⟨by rw [length_arpFrame], ?_, ?_, ?_, ?_, ?_, ?_⟩
  · simp [arpFrame, be16, field16]
  · simp [arpFrame, be16, field16]
  · simp [arpFrame, be16, field16]
  · simp [arpFrame, be16]
  · simp [arpFrame, be16]
  · simp only [arpFrame, ofFn_six, be16, field16, List.cons_append, List.nil_append, List.getD_cons_succ,
      List.getD_cons_zero]
    exact be16_toNat opcode

namespace Eth

variable {e : Eth} {f : List UInt8}

theorem Fetched.senderMac_eq (h : e.Fetched f) (hlen : 28 ≤ f.length) : e.rxMac 22 = senderMac f := by
  funext i
  exact h.bytes (22 + i) (by omega)

theorem Fetched.ip_eq (h : e.Fetched f) {off : ℕ} (hoff : off + 4 ≤ f.length) (ip : UInt32) :
    ntohl (e.rx32 off) = ip ↔ slice f off 4 = be32 ip := by
  rw [rx32, ntohl_eq_iff, h.read_slice hoff]

theorem Fetched.field_eq (h : e.Fetched f) {off : ℕ} (hoff : off + 2 ≤ f.length) (v : UInt16) :
    ntohs (e.rx16 off) = v ↔ field16 f off = v.toNat := by
  rw [← h.field off hoff, UInt16.toNat_inj]

/-- An ARP packet is taken by its opcode. -/
theorem processFrame_arp (h : e.Fetched f) {opcode : ℕ} (ha : IsArp opcode f) : e.processFrame soc =
    (if opcode = 2 then if slice f 28 4 = be32 e.cachedIp then { e with cachedMac := senderMac f } else e
      else if opcode = 1 then if slice f 38 4 = be32 e.myIp then e.arpReply soc else e
      else e, none) := by
  obtain ⟨a0, a1, a2, a3, a4, a5, a6⟩ := ha
  have h12 : ntohs (e.rx16 12) = 0x0806 := (h.field_eq (by omega) _).mpr a1
  have h14 : ntohs (e.rx16 14) = 1 := (h.field_eq (by omega) _).mpr a2
  have h16 : ntohs (e.rx16 16) = 0x0800 := (h.field_eq (by omega) _).mpr a3
  have h18 : e.rx8 18 = 6 := (h.bytes 18 (by omega)).trans a4
  have h19 : e.rx8 19 = 4 := (h.bytes 19 (by omega)).trans a5
  have h2 : ntohs (e.rx16 20) = 2 ↔ opcode = 2 := by rw [h.field_eq (by omega), a6]; rfl
  have h1 : ntohs (e.rx16 20) = 1 ↔ opcode = 1 := by rw [h.field_eq (by omega), a6]; rfl
  rw [processFrame, if_pos h12, processArp, if_neg (by rw [h.len]; omega), if_neg (not_not.mpr h14),
    if_neg (not_not.mpr h16), if_neg (not_not.mpr h18), if_neg (not_not.mpr h19)]
  simp only [h1, h2, h.ip_eq (show 28 + 4 ≤ f.length by omega), h.ip_eq (show 38 + 4 ≤ f.length by omega),
    h.senderMac_eq (by omega)]

/-- The copy of the echo payload writes memory only. -/
theorem echoCopy_withMem (s : Eth) : ∀ k,
    ∃ m, (List.range k).foldl (fun s i => s.put8 (42 + i) (s.rx8 (42 + i))) s = s.withMem m
  | 0 => ⟨s.mem, rfl⟩
  | k + 1 => by
    obtain ⟨m, hm⟩ := echoCopy_withMem s k
    rw [List.range_succ, List.foldl_append, hm]
    exact ⟨_, rfl⟩

theorem echoReply_cachedMac (s : Eth) (length : ℕ) : (s.echoReply soc length).cachedMac = s.cachedMac := by
  unfold echoReply
  dsimp only
  generalize hs : Eth.put16 _ 40 _ = t
  obtain ⟨m, hm⟩ := echoCopy_withMem t length
  rw [hm, ← hs]
  rfl

/-- No other frame touches the address that was learnt. -/
theorem processFrame_cachedMac (h : e.Fetched f) : (e.processFrame soc).1.cachedMac =
    if IsArp 2 f ∧ slice f 28 4 = be32 e.cachedIp then senderMac f else e.cachedMac := by
  by_cases ha : IsArp 2 f
  · rw [processFrame_arp soc h ha, if_pos rfl]
    by_cases hip : slice f 28 4 = be32 e.cachedIp
    · rw [if_pos hip, if_pos ⟨ha, hip⟩]
    · rw [if_neg hip, if_neg (fun h => hip h.2)]
  · rw [if_neg (fun h => ha h.1)]
    unfold processFrame
    split_ifs with h12
    · unfold processArp
      split_ifs with g1 g2 g3 g4 g5 g6 g7
      · rfl
      · rfl
      · rfl
      · rfl
      · rfl
      · rw [h.len] at g1
        exact absurd ⟨by omega, (h.field_eq (by omega) _).mp h12, (h.field_eq (by omega) _).mp (not_not.mp g2),
          (h.field_eq (by omega) _).mp (not_not.mp g3), (h.bytes 18 (by omega)).symm.trans (not_not.mp g4),
          (h.bytes 19 (by omega)).symm.trans (not_not.mp g5), (h.field_eq (by omega) _).mp g6⟩ ha
      all_goals rfl
    · rfl
    · rfl
    · rfl
    · unfold processIcmp
      dsimp only
      split_ifs
      all_goals first | rfl | exact echoReply_cachedMac soc e _
    · rfl
    · rfl

end Eth

/-! ### A request and its reply -/

section Fields

variable (dst : MacAddr) (opcode : UInt16) (mac : MacAddr) (ip : UInt32) (targetMac : MacAddr) (targetIp : UInt32)

theorem senderMac_arpFrame : senderMac (arpFrame dst opcode mac ip targetMac targetIp) = mac := by
  funext i
  fin_cases i <;> simp [senderMac, arpFrame, be16]

theorem senderIp_arpFrame : slice (arpFrame dst opcode mac ip targetMac targetIp) 28 4 = be32 ip := rfl

theorem targetIp_arpFrame : slice (arpFrame dst opcode mac ip targetMac targetIp) 38 4 = be32 targetIp := rfl

end Fields

theorem rxAddr_below {slot : ℕ} (slot' : ℕ) (h : slot < soc.rxSlots) : rxAddr slot + 2048 ≤ soc.txAddr slot' := by
  unfold rxAddr Soc.txAddr
  omega

namespace Node

/-- The request that a node sends for an address. -/
theorem started_arpRequest {e : Eth} (h : e.TxOk soc) (ip : UInt32) : (e.arpRequest soc ip).started =
    e.started ++ [⟨e.txSlot, 60, arpFrame (fun _ => 0xff) 1 e.myMac e.myIp (fun _ => 0) ip⟩] := by
  rw [Eth.arpRequest_eq]
  exact Eth.started_sendPacket soc h

/-- The globals with which a node serves the frame `f`. -/
structure Serves (n : Node) (f : List UInt8) (e : Eth) : Prop where
  fetched : e.Fetched f
  txOk : e.TxOk soc
  below : e.rxBuffer + 2048 ≤ e.txBuffer
  myIp : e.myIp = n.eth.myIp
  myMac : e.myMac = n.eth.myMac
  txSlot : e.txSlot = n.eth.txSlot
  started : e.started = n.eth.started

theorem serves_store {n : Node} (h : n.eth.TxOk soc) {slot : ℕ} (hslot : slot < soc.rxSlots) (f : List UInt8) :
    Serves soc n f ((n.store slot f).fetch slot f.length).eth := by
  have hbuf : ((n.store slot f).fetch slot f.length).eth.txBuffer = soc.txAddr n.eth.txSlot := h.buffer
  refine ⟨fetched_store n slot f, ⟨h.slot_lt, h.buffer⟩, ?_, rfl, rfl, rfl, rfl⟩
  rw [hbuf]
  exact rxAddr_below soc n.eth.txSlot hslot

/-- A request for the node's own address is answered, to the one who asked. -/
theorem started_service_request {n : Node} (h : n.eth.TxOk soc) {slot : ℕ} (hslot : slot < soc.rxSlots)
    (dst mac targetMac : MacAddr) (ip : UInt32) :
    ((n.store slot (arpFrame dst 1 mac ip targetMac n.eth.myIp)).service soc slot 60).eth.started =
      n.eth.started ++ [⟨n.eth.txSlot, 60, arpFrame mac 2 n.eth.myMac n.eth.myIp mac ip⟩] := by
  have hlen := length_arpFrame dst 1 mac ip targetMac n.eth.myIp
  have hip := senderIp_arpFrame dst 1 mac ip targetMac n.eth.myIp
  have hmac := senderMac_arpFrame dst 1 mac ip targetMac n.eth.myIp
  have hfor := targetIp_arpFrame dst 1 mac ip targetMac n.eth.myIp
  have harp := isArp_arpFrame dst 1 mac ip targetMac n.eth.myIp
  generalize arpFrame dst 1 mac ip targetMac n.eth.myIp = f at hlen hip hmac hfor harp
  have hserved : (n.store slot f).service soc slot 60 = (n.store slot f).service soc slot f.length := by rw [hlen]
  rw [hserved, service_eth]
  have hs := serves_store soc h hslot f
  generalize ((n.store slot f).fetch slot f.length).eth = e at hs
  have hbelow := hs.below
  rw [Eth.processFrame_arp soc hs.fetched harp, hs.myIp, hfor]
  dsimp only
  rw [if_neg (by decide), if_pos (by decide), if_pos rfl, Eth.arpReply_eq soc (by omega),
    hs.fetched.senderMac_eq (by omega), hmac, (hs.fetched.ip_eq (by omega) ip).mpr hip, ← hs.myIp, ← hs.myMac,
    ← hs.started, ← hs.txSlot]
  exact Eth.started_sendPacket soc hs.txOk

/-- A reply only teaches the address, to those who wait for its sender. -/
theorem service_reply (n : Node) (slot : ℕ) (dst mac targetMac : MacAddr) (ip targetIp : UInt32) :
    ((n.store slot (arpFrame dst 2 mac ip targetMac targetIp)).service soc slot 60).eth.cachedMac =
        (if n.eth.cachedIp = ip then mac else n.eth.cachedMac) ∧
      ((n.store slot (arpFrame dst 2 mac ip targetMac targetIp)).service soc slot 60).eth.started = n.eth.started := by
  have hlen := length_arpFrame dst 2 mac ip targetMac targetIp
  have hip := senderIp_arpFrame dst 2 mac ip targetMac targetIp
  have hmac := senderMac_arpFrame dst 2 mac ip targetMac targetIp
  have harp := isArp_arpFrame dst 2 mac ip targetMac targetIp
  generalize arpFrame dst 2 mac ip targetMac targetIp = f at hlen hip hmac harp
  have hserved : (n.store slot f).service soc slot 60 = (n.store slot f).service soc slot f.length := by rw [hlen]
  have hcached : be32 ip = be32 n.eth.cachedIp ↔ n.eth.cachedIp = ip := by
    rw [be32_inj]
    exact eq_comm
  rw [hserved, service_eth, Eth.processFrame_arp soc (fetched_store n slot f) harp, if_pos (by decide), hip, hmac]
  show (if be32 ip = be32 n.eth.cachedIp then _ else _ : Eth).cachedMac = _ ∧
    (if be32 ip = be32 n.eth.cachedIp then _ else _ : Eth).started = _
  by_cases h : n.eth.cachedIp = ip
  · rw [if_pos (hcached.mpr h), if_pos h]
    exact ⟨rfl, rfl⟩
  · rw [if_neg (fun he => h (hcached.mp he)), if_neg h]
    exact ⟨rfl, rfl⟩

end Node

/-- **A request is answered by the node it asks for, and the answer tells where that
node is.** The request of `a` for the address of `b` makes `b` start one frame, to `a`.
A node that is served this frame learns the address of `b` if it waits for `b`, keeps
what it knows if not, and sends nothing. -/
theorem arp_request_answered (a b : Node) (ha : a.eth.TxOk soc) (hb : b.eth.TxOk soc) (slot : ℕ)
    (hslot : slot < soc.rxSlots) :
    ∃ request reply : TxStart, (a.eth.arpRequest soc b.eth.myIp).started = a.eth.started ++ [request] ∧
      ((b.store slot request.frame).service soc slot request.length).eth.started = b.eth.started ++ [reply] ∧
      slice reply.frame 0 6 = List.ofFn a.eth.myMac ∧
      ∀ (c : Node) (slot' : ℕ),
        ((c.store slot' reply.frame).service soc slot' reply.length).eth.cachedMac =
            (if c.eth.cachedIp = b.eth.myIp then b.eth.myMac else c.eth.cachedMac) ∧
          ((c.store slot' reply.frame).service soc slot' reply.length).eth.started = c.eth.started := by
  refine ⟨_, _, Node.started_arpRequest soc ha b.eth.myIp, Node.started_service_request soc hb hslot _ _ _ _, ?_, ?_⟩
  · rfl
  · intro c slot'
    exact Node.service_reply soc c slot' _ _ _ _ _

/-- Two nodes of the simulated SoC, the second at 192.168.1.100. -/
theorem arp_request_answered_sim :
    ∃ request reply : TxStart,
      (Node.simClient.eth.arpRequest Soc.sim Node.serverIp).started = Node.simClient.eth.started ++ [request] ∧
      slice reply.frame 0 6 = [2, 0, 0, 0, 0, 1] ∧
      ((Node.simClient.store 1 reply.frame).service Soc.sim 1 reply.length).eth.cachedMac = ![6, 5, 4, 3, 2, 1] := by
  obtain ⟨request, reply, h1, -, h3, h4⟩ := arp_request_answered Soc.sim Node.simClient
    { Node.boot with eth := Node.boot.eth.udpStart Soc.sim ![6, 5, 4, 3, 2, 1] Node.serverIp }
    (Node.client_txOk Soc.sim _) (Eth.txOk_udpStart Soc.sim _ _ _) 0 (by decide)
  refine ⟨request, reply, h1, h3, ?_⟩
  exact (h4 Node.simClient 1).1.trans (if_pos rfl)

/-! ### What `udp_arp_resolve` learns -/

/-- What a frame tells a node that waits for an address. -/
def told (ip : UInt32) : Option (ℕ × List UInt8) → Option MacAddr
  | none => none
  | some (_, f) =>
    if IsArp 2 f ∧ slice f 28 4 = be32 ip ∧ ∃ i, senderMac f i ≠ 0 then some (senderMac f) else none

namespace Node

/-- The node has asked for the address. -/
structure Waits (ip : UInt32) (n : Node) : Prop where
  cachedIp : n.eth.cachedIp = ip
  unresolved : n.eth.Unresolved

/-- The node has been told the address. -/
structure Knows (ip : UInt32) (mac : MacAddr) (n : Node) : Prop where
  cachedIp : n.eth.cachedIp = ip
  cachedMac : n.eth.cachedMac = mac
  resolved : ¬n.eth.Unresolved

/-- How the wait ends, by what is told first. -/
def Outcome (ip : UInt32) (r : Node × Bool) : Option MacAddr → Prop
  | none => r.2 = false ∧ r.1.Waits ip
  | some mac => r.2 = true ∧ r.1.Knows ip mac

variable {n : Node} {ip : UInt32}

/-- Serving a frame keeps the address asked for, and what is learnt is what the frame says. -/
theorem service_cachedMac (n : Node) (slot : ℕ) (f : List UInt8) :
    ((n.store slot f).service soc slot f.length).eth.cachedIp = n.eth.cachedIp ∧
      ((n.store slot f).service soc slot f.length).eth.cachedMac =
        if IsArp 2 f ∧ slice f 28 4 = be32 n.eth.cachedIp then senderMac f else n.eth.cachedMac := by
  rw [service_eth]
  exact ⟨(Eth.processFrame_keeps soc _).cachedIp, Eth.processFrame_cachedMac soc (fetched_store n slot f)⟩

theorem waits_udpService (h : n.Waits ip) {arrival : Option (ℕ × List UInt8)} (ht : told ip arrival = none) :
    (n.udpService soc arrival).Waits ip := by
  cases arrival with
  | none => exact h
  | some a =>
    obtain ⟨slot, f⟩ := a
    obtain ⟨hip, hmac⟩ := service_cachedMac soc n slot f
    refine ⟨hip.trans h.cachedIp, ?_⟩
    rw [h.cachedIp] at hmac
    show ∀ i, ((n.store slot f).service soc slot f.length).eth.cachedMac i = 0
    rw [hmac]
    split
    · next hf =>
      -- a reply for the address that says nothing says zero
      by_contra hne
      rw [not_forall] at hne
      rw [told, if_pos ⟨hf.1, hf.2, hne⟩] at ht
      cases ht
    · exact h.unresolved

theorem knows_udpService (h : n.Waits ip) {arrival : Option (ℕ × List UInt8)} {mac : MacAddr}
    (ht : told ip arrival = some mac) : (n.udpService soc arrival).Knows ip mac := by
  cases arrival with
  | none => cases ht
  | some a =>
    obtain ⟨slot, f⟩ := a
    obtain ⟨hip, hmac⟩ := service_cachedMac soc n slot f
    rw [told] at ht
    split at ht
    · next hf =>
      obtain rfl := Option.some.inj ht
      rw [h.cachedIp, if_pos ⟨hf.1, hf.2.1⟩] at hmac
      refine ⟨hip.trans h.cachedIp, hmac, fun hz => ?_⟩
      obtain ⟨i, hi⟩ := hf.2.2
      exact hi ((congrFun hmac i).symm.trans (hz i))
    · cases ht

/-- One wait, by induction on the polls. -/
theorem arpWait_outcome {n : Node} (h : n.Waits ip) (arrivals : List (Option (ℕ × List UInt8))) :
    Outcome ip (arpWait soc n arrivals) (arrivals.findSome? (told ip)) := by
  induction arrivals generalizing n with
  | nil => exact ⟨rfl, h⟩
  | cons arrival rest ih =>
    rw [List.findSome?_cons, arpWait]
    cases ht : told ip arrival with
    | none =>
      have hw := waits_udpService soc h ht
      rw [if_pos hw.unresolved]
      exact ih hw
    | some mac =>
      have hk := knows_udpService soc h ht
      rw [if_neg hk.resolved]
      exact ⟨rfl, hk⟩

theorem waits_arpRequest (h : n.Waits ip) : ({ n with eth := n.eth.arpRequest soc ip } : Node).Waits ip := by
  rw [Eth.arpRequest_eq]
  exact ⟨h.cachedIp, h.unresolved⟩

/-- All tries, by induction on them: a request between two waits changes nothing of what
the node waits for. -/
theorem arpTries_outcome {n : Node} (h : n.Waits ip) (rounds : List (List (Option (ℕ × List UInt8)))) :
    Outcome ip (arpTries soc ip n rounds) (rounds.flatten.findSome? (told ip)) := by
  induction rounds generalizing n with
  | nil => exact ⟨rfl, h⟩
  | cons arrivals rest ih =>
    have hw := arpWait_outcome soc (waits_arpRequest soc h) arrivals
    rw [List.flatten_cons, List.findSome?_append, arpTries]
    revert hw
    rcases arpWait soc { n with eth := n.eth.arpRequest soc ip } arrivals with ⟨n', found⟩
    cases ht : arrivals.findSome? (told ip) with
    | none =>
      rintro ⟨rfl, hn⟩
      exact ih hn
    | some mac =>
      rintro ⟨rfl, hn⟩
      exact ⟨rfl, hn⟩

end Node

/-- **`udp_arp_resolve` learns what it is told first.** Over everything that may come in
its eight times 100000 polls, it succeeds exactly when an ARP reply in the name of the
address gives one that is not zero, and the first such reply is what it then knows. -/
theorem resolves_to_first_reply (n : Node) (ip : UInt32) (arrivals : ℕ → ℕ → Option (ℕ × List UInt8)) :
    if n.eth.cachedIp = ip ∧ ¬n.eth.Unresolved then n.udpArpResolve soc ip arrivals = (n, true)
    else Node.Outcome ip (n.udpArpResolve soc ip arrivals)
      (((List.range 8).flatMap fun i => (List.range 100000).map (arrivals i)).findSome? (told ip)) := by
  unfold Node.udpArpResolve
  by_cases h : n.eth.cachedIp = ip ∧ ¬n.eth.Unresolved
  · rw [if_pos h, if_pos h]
  · rw [if_neg h, if_neg h, List.flatMap_def]
    -- the polls are not to be counted out
    generalize (List.range 8).map (fun i => (List.range 100000).map (arrivals i)) = rounds
    apply Node.arpTries_outcome
    exact ⟨rfl, fun _ => rfl⟩

end PqcDtls
