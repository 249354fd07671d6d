/-
# The transport between two nodes

One record becomes one frame, and the frame becomes the record again:
`transport_lossless` is about `dtls_send_cb` on one node, the delivery of the
frame it starts to a second node, and the call of `dtls_recv_cb` there that
meets it. A frame is accepted by the second node because it is a UDP frame
(`IsUdpFrame`) to that node's address; the padding behind a short record is
not part of what the length field covers.
-/
import PqcDtls.SendFrame
import PqcDtls.Receive

namespace PqcDtls

open Lib

variable (soc : Soc)

/-! ### The sender -/

/-- The send callback on a record it takes. -/
theorem dtlsSendCb_sent {n : Node} (hok : n.eth.TxOk soc) (hm : ¬ n.eth.Unresolved) (buf : Mem) {sz : ℤ}
    (h1 : 1 ≤ sz) (h2 : sz ≤ dtlsMaxDgram) :
    ∃ fr : TxStart, (n.dtlsSendCb soc buf sz).2 = sz ∧
      (n.dtlsSendCb soc buf sz).1.eth.started = n.eth.started ++ [fr] ∧
      fr.slot = n.eth.txSlot ∧ fr.length = max 60 (sz.toNat + 42) ∧
      IsUdpFrame fr.frame n.eth.cachedMac n.eth.myIp n.eth.cachedIp n.gLocalPort n.gPeerPort
        (buf.read 0 sz.toNat) := by
  have hsz : sz.toNat ≤ 1536 := by
    have : (dtlsMaxDgram : ℤ) = 1536 := rfl
    omega
  obtain ⟨fr, m, hret, heth, hslot, hlen, hframe⟩ :=
    send_spec soc buf n.gLocalPort n.gPeerPort hok hsz hm
  refine ⟨fr, ?_, ?_, hslot, hlen, hframe⟩
  · rw [Node.dtlsSendCb, if_neg (by omega), if_neg (by omega)]
    simp only [hret, Option.getD_some]
    omega
  · rw [Node.dtlsSendCb, if_neg (by omega), if_neg (by omega)]
    simp only [heth]

/-- The send callback on a record it refuses, or with an empty ARP cache. -/
theorem dtlsSendCb_refused {n : Node} (buf : Mem) {sz : ℤ}
    (h : sz ≤ 0 ∨ sz > dtlsMaxDgram ∨ n.eth.Unresolved) :
    ((n.dtlsSendCb soc buf sz).2 = cbioErrGeneral ∨ (n.dtlsSendCb soc buf sz).2 = cbioErrWantWrite) ∧
    ∃ m : Mem, (n.dtlsSendCb soc buf sz).1 = { n with eth := { n.eth with mem := m } } ∧
      (sz ≤ 0 ∨ sz > dtlsMaxDgram → m = n.eth.mem) ∧
      ∀ x, x < n.eth.txBuffer + 42 ∨ n.eth.txBuffer + 42 + dtlsMaxDgram ≤ x → m x = n.eth.mem x := by
  unfold Node.dtlsSendCb
  by_cases h1 : sz ≤ 0
  · rw [if_pos h1]
    exact ⟨Or.inl rfl, n.eth.mem, rfl, fun _ => rfl, fun _ _ => rfl⟩
  rw [if_neg h1]
  by_cases h2 : sz > dtlsMaxDgram
  · rw [if_pos h2]
    exact ⟨Or.inl rfl, n.eth.mem, rfl, fun _ => rfl, fun _ _ => rfl⟩
  rw [if_neg h2]
  obtain ⟨hret, heth⟩ := send_unresolved soc buf sz.toNat n.gLocalPort n.gPeerPort
    (h.resolve_left h1 |>.resolve_left h2)
  simp only [hret, heth, Option.getD_some]
  refine ⟨Or.inr trivial, _, rfl, fun hc => by omega, fun x hx => ?_⟩
  exact Mem.write_apply_out _ _ (by rw [Mem.length_read]; omega)

/-! ### The transmit slot along a run -/

/-- A send leaves the transmit buffer in step with its index. -/
theorem txOk_dtlsSendCb {n : Node} (hok : n.eth.TxOk soc) (buf : Mem) (sz : ℤ) :
    (n.dtlsSendCb soc buf sz).1.eth.TxOk soc := by
  by_cases h : sz ≤ 0 ∨ sz > dtlsMaxDgram ∨ n.eth.Unresolved
  · obtain ⟨-, m, hn, -⟩ := dtlsSendCb_refused soc buf h
    rw [hn]
    exact ⟨hok.slot_lt, hok.buffer⟩
  · simp only [not_or] at h
    obtain ⟨h1, h2, hm⟩ := h
    have hsz : sz.toNat ≤ 1536 := by
      have : (dtlsMaxDgram : ℤ) = 1536 := rfl
      omega
    obtain ⟨fr, m, -, heth, -⟩ := send_spec soc buf n.gLocalPort n.gPeerPort hok hsz hm
    rw [Node.dtlsSendCb, if_neg h1, if_neg h2]
    simp only [heth]
    exact ⟨Nat.mod_lt _ soc.txPos, rfl⟩

/-- What happens to a node after `udp_start`. -/
inductive Node.Op where
  /-- A frame is received in a slot and served. -/
  | frame (slot : ℕ) (f : List UInt8)
  | send (buf : Mem) (sz : ℤ)
  | recv (sz : ℕ)

def Node.perform (n : Node) : Node.Op → Node
  | .frame slot f => (n.store slot f).service soc slot f.length
  | .send buf sz => (n.dtlsSendCb soc buf sz).1
  | .recv sz => { n with ring := (n.ring.dtlsRecvCb sz).1 }

theorem txOk_perform {n : Node} (hok : n.eth.TxOk soc) (op : Node.Op) : (n.perform soc op).eth.TxOk soc := by
  cases op with
  | frame slot f =>
    show ((n.store slot f).service soc slot f.length).eth.TxOk soc
    rw [Node.service_eth]
    exact Eth.txOk_processFrame soc ⟨hok.slot_lt, hok.buffer⟩
  | send buf sz => exact txOk_dtlsSendCb soc hok buf sz
  | recv sz => exact hok

/-- **The transmit buffer is always the slot its index names**, whatever frames
are served and whatever is sent after `udp_start`. -/
theorem txOk_of_udpStart {n : Node} {e : Eth} {macaddr : MacAddr} {ip : UInt32}
    (hn : n.eth = e.udpStart soc macaddr ip) (ops : List Node.Op) :
    (ops.foldl (Node.perform soc) n).eth.TxOk soc := by
  have hrun : ∀ (ops : List Node.Op) (n : Node), n.eth.TxOk soc →
      (ops.foldl (Node.perform soc) n).eth.TxOk soc := by
    intro ops
    induction ops with
    | nil => exact fun n h => h
    | cons op ops ih => exact fun n h => ih _ (txOk_perform soc h op)
  apply hrun
  rw [hn]
  exact Eth.txOk_udpStart soc e macaddr ip

/-! ### The receiver -/

theorem slice_one {f : List UInt8} {off : ℕ} {v : UInt8} (h : slice f off 1 = [v]) : f.getD off 0 = v := by
  have h0 := congrArg (·[0]?) h
  simp only [slice, List.getElem?_take, List.getElem?_drop, Nat.add_zero, Nat.lt_one_iff, ↓reduceIte,
    List.getElem?_cons_zero] at h0
  simp [List.getD, h0]

theorem field16_of_slice {f : List UInt8} {off : ℕ} {v : UInt16} (h : slice f off 2 = be16 v) :
    field16 f off = v.toNat := by
  have h0 := congrArg (·[0]?) h
  have h1 := congrArg (·[1]?) h
  simp only [slice, List.getElem?_take, List.getElem?_drop, Nat.add_zero, be16, Nat.zero_lt_succ,
    Nat.one_lt_ofNat, ↓reduceIte, List.getElem?_cons_zero, List.getElem?_cons_succ] at h0 h1
  rw [field16, ← be16_toNat]
  simp [List.getD, h0, h1]

/-- A UDP frame to a node's address is accepted there. -/
theorem accepts_of_isUdpFrame {f : List UInt8} {dst : MacAddr} {srcIp dstIp : UInt32} {sp dp : UInt16}
    {payload : List UInt8} (h : IsUdpFrame f dst srcIp dstIp sp dp payload) : Accepts dstIp f where
  length := by rw [h.length]; omega
  etherType := field16_of_slice h.etherType
  version := slice_one h.version
  proto := slice_one h.proto
  dstIp := h.dstIp
  ipLength := by rw [h.ipLength]; omega
  udpLength := by rw [h.udpLength]; omega

/-- **A UDP frame is decoded to its payload.** -/
theorem contents_service {n : Node} {f : List UInt8} {dst : MacAddr} {srcIp dstIp : UInt32}
    {sp dp : UInt16} {payload : List UInt8} (h : IsUdpFrame f dst srcIp dstIp sp dp payload)
    (hip : n.eth.myIp = dstIp) (hcb : n.eth.rxCallback = true) (hroom : n.ring.count < 7)
    (hsmall : payload.length ≤ dtlsMaxDgram) (slot : ℕ) :
    ((n.store slot f).service soc slot f.length).ring.contents = n.ring.contents ++ [payload] := by
  have ha := accepts_of_isUdpFrame h
  rw [← hip] at ha
  have hlen : field16 f 38 - 8 = payload.length := by rw [h.udpLength]; omega
  rw [Node.service_accepts soc n slot f ha hcb, hlen, Ring.contents_dtlsRxCb hroom]
  have hfit : 42 + payload.length ≤ f.length := by rw [h.length]; omega
  have hread : (n.store slot f).eth.mem.read (rxAddr slot + 42) payload.length = payload :=
    ((n.fetched_store slot f).read_slice hfit).trans h.payload
  rw [hread, List.take_of_length_le hsmall]

/-! ### Both -/

/-- **The transport is lossless.** A record of 1 to 1536 bytes leaves as exactly
one frame, with correct lengths and checksums and at least 60 bytes long, and
the frame delivered to a node with the destination address and room in its ring
gives that ring the record as its last datagram, which the call of
`dtls_recv_cb` that reaches it returns whole. Any other record, or any record
while the ARP cache is empty, is answered with an error code and no frame, and
leaves the node as it is, but for the unsent payload bytes of the transmit slot
when only the address was missing. -/
theorem transport_lossless (n : Node) (hok : n.eth.TxOk soc) (buf : Mem) (sz : ℤ) :
    (1 ≤ sz → sz ≤ dtlsMaxDgram → ¬ n.eth.Unresolved →
      (n.dtlsSendCb soc buf sz).2 = sz ∧
      ∃ fr : TxStart, (n.dtlsSendCb soc buf sz).1.eth.started = n.eth.started ++ [fr] ∧
        fr.length = fr.frame.length ∧
        IsUdpFrame fr.frame n.eth.cachedMac n.eth.myIp n.eth.cachedIp n.gLocalPort n.gPeerPort
          (buf.read 0 sz.toNat) ∧
        ∀ (n' : Node) (slot : ℕ), n'.eth.myIp = n.eth.cachedIp → n'.eth.rxCallback = true →
          n'.ring.count < 7 →
          ((n'.store slot fr.frame).service soc slot fr.length).ring.contents =
            n'.ring.contents ++ [buf.read 0 sz.toNat] ∧
          ∀ (szs : List ℕ) (b : ℕ), szs.length = n'.ring.count → sz ≤ b →
            (((n'.store slot fr.frame).service soc slot fr.length).ring.recvCalls (szs ++ [b]))[
              n'.ring.count]? = some (some (buf.read 0 sz.toNat))) ∧
    (sz ≤ 0 ∨ sz > dtlsMaxDgram ∨ n.eth.Unresolved →
      ((n.dtlsSendCb soc buf sz).2 = cbioErrGeneral ∨ (n.dtlsSendCb soc buf sz).2 = cbioErrWantWrite) ∧
      (n.dtlsSendCb soc buf sz).1.eth.started = n.eth.started ∧
      ∃ m : Mem, (n.dtlsSendCb soc buf sz).1 = { n with eth := { n.eth with mem := m } } ∧
        (sz ≤ 0 ∨ sz > dtlsMaxDgram → m = n.eth.mem) ∧
        ∀ x, x < n.eth.txBuffer + 42 ∨ n.eth.txBuffer + 42 + dtlsMaxDgram ≤ x → m x = n.eth.mem x) := by
  constructor
  · intro h1 h2 hm
    obtain ⟨fr, hret, hstarted, -, hlen, hframe⟩ := dtlsSendCb_sent soc hok hm buf h1 h2
    have hfl : fr.length = fr.frame.length := by rw [hlen, hframe.length, Mem.length_read]
    refine ⟨hret, fr, hstarted, hfl, hframe, ?_⟩
    intro n' slot hip hcb hroom
    have hc := contents_service soc hframe hip hcb hroom (by rw [Mem.length_read]; omega) slot
    rw [← hfl] at hc
    refine ⟨hc, fun szs b hszs hb => ?_⟩
    rw [Ring.recvCalls_getElem?, hc, ← Ring.length_contents, List.getElem?_concat_length,
      Ring.length_contents, ← hszs, List.getElem?_concat_length]
    simp only [Option.map_some]
    rw [List.take_of_length_le (by rw [Mem.length_read]; omega)]
  · intro h
    obtain ⟨hret, m, hn, hm, happ⟩ := dtlsSendCb_refused soc buf h
    exact ⟨hret, by rw [hn], m, hn, hm, happ⟩

/-- A record of three bytes from the client to a node with the server's address. -/
theorem transport_lossless_three :
    (Node.simClient.dtlsSendCb Soc.sim (fun i => UInt8.ofNat (i + 1)) 3).2 = 3 ∧
    ∃ fr : TxStart,
      (Node.simClient.dtlsSendCb Soc.sim (fun i => UInt8.ofNat (i + 1)) 3).1.eth.started = [fr] ∧
      ((({ Node.simClient with eth := { Node.simClient.eth with myIp := Node.serverIp } } : Node).store 1
        fr.frame).service Soc.sim 1 fr.length).ring.contents = [[1, 2, 3]] := by
  have h := transport_lossless Soc.sim Node.simClient (Node.client_txOk _ _) (fun i => UInt8.ofNat (i + 1)) 3
  obtain ⟨hret, fr, hstarted, -, -, hdeliver⟩ := h.1 (by decide) (by decide) (by decide)
  refine ⟨hret, fr, hstarted, ?_⟩
  exact (hdeliver { Node.simClient with eth := { Node.simClient.eth with myIp := Node.serverIp } } 1 rfl rfl
    (by decide)).1

end PqcDtls
