/-
# The transport glue (`dtls_io.c`)

The ring of whole datagrams between the liteeth receive callback and wolfSSL's
recv callback, the send callback, and a node: the stack, the ring and the two
ports. The ring has eight slots and keeps one of them free, so it holds seven
datagrams; its contents, oldest first, are `Ring.contents`.

* `Ring.contents_dtlsRxCb`, `Ring.contents_dtlsRecvCb`: the two callbacks are
  the push (dropping when full) and the pop of a queue of capacity seven.
-/
import PqcDtls.Send

namespace PqcDtls

open Lib

/-- `DTLS_RX_SLOTS` -/
def dtlsRxSlots : ℕ := 8

/-- The globals of the receive ring. Every write of an index is taken modulo
the number of slots. -/
structure Ring where
  rxBuf : ℕ → Mem
  rxLen : ℕ → ℕ
  rxHead : ℕ
  rxTail : ℕ
  head_lt : rxHead < dtlsRxSlots
  tail_lt : rxTail < dtlsRxSlots

namespace Ring

/-- The liteeth callback: copy the datagram into the ring, drop it if full. -/
def dtlsRxCb (r : Ring) (m : Mem) (data length : ℕ) : Ring :=
  let next := (r.rxHead + 1) % dtlsRxSlots
  if next = r.rxTail then r
  else
    let n := if length > dtlsMaxDgram then dtlsMaxDgram else length
    { r with
      rxBuf := Function.update r.rxBuf r.rxHead fun i => if i < n then m (data + i) else r.rxBuf r.rxHead i
      rxLen := Function.update r.rxLen r.rxHead (n % 65536)
      rxHead := next
      head_lt := Nat.mod_lt _ (by decide) }

/-- The consumer moves on to the next slot. -/
def advance (r : Ring) : Ring :=
  { r with rxTail := (r.rxTail + 1) % dtlsRxSlots, tail_lt := Nat.mod_lt _ (by decide) }

/-- The wolfSSL callback with a buffer of `sz` bytes: one datagram, cut to the
buffer, or `none` for `WANT_READ`. -/
def dtlsRecvCb (r : Ring) (sz : ℕ) : Ring × Option (List UInt8) :=
  if r.rxHead = r.rxTail then (r, none)
  else
    let n := if r.rxLen r.rxTail > sz then sz else r.rxLen r.rxTail
    (r.advance, some ((r.rxBuf r.rxTail).read 0 n))

/-- What a sequence of calls returns, given the buffer size of each. -/
def recvCalls : Ring → List ℕ → List (Option (List UInt8))
  | _, [] => []
  | r, sz :: szs => (r.dtlsRecvCb sz).2 :: recvCalls (r.dtlsRecvCb sz).1 szs

/-- The number of datagrams held. -/
def count (r : Ring) : ℕ := (r.rxHead + dtlsRxSlots - r.rxTail) % dtlsRxSlots

/-- The datagram in a slot. -/
def slot (r : Ring) (i : ℕ) : List UInt8 := (r.rxBuf i).read 0 (r.rxLen i)

/-- The datagrams held, oldest first. -/
def contents (r : Ring) : List (List UInt8) :=
  (List.range r.count).map fun i => r.slot ((r.rxTail + i) % dtlsRxSlots)

/-- The ring as `dtls_io_init` leaves it. -/
def init (r : Ring) : Ring :=
  { r with rxHead := 0, rxTail := 0, head_lt := by decide, tail_lt := by decide }

/-! ### The ring is a queue of capacity seven -/

/-- Both callbacks cut a length to a limit. -/
theorem cut_eq_min (k n : ℕ) : (if n > k then k else n) = min k n := by
  split_ifs <;> omega

theorem contents_init (r : Ring) : r.init.contents = [] := by
  simp [init, contents, count, dtlsRxSlots]

theorem length_contents (r : Ring) : r.contents.length = r.count := by simp [contents]

theorem count_le (r : Ring) : r.count ≤ 7 := by
  unfold count dtlsRxSlots; omega

theorem full_iff (r : Ring) :
    (r.rxHead + 1) % dtlsRxSlots = r.rxTail ↔ r.count = 7 := by
  have h1 := r.head_lt
  have h2 := r.tail_lt
  unfold count dtlsRxSlots at *
  omega

theorem empty_iff (r : Ring) : r.rxHead = r.rxTail ↔ r.count = 0 := by
  have h1 := r.head_lt
  have h2 := r.tail_lt
  unfold count dtlsRxSlots at *
  omega

/-- A full ring drops the datagram. -/
theorem dtlsRxCb_full {r : Ring} (hc : r.count = 7) (m : Mem) (data length : ℕ) :
    r.dtlsRxCb m data length = r := by
  simp [dtlsRxCb, (full_iff r).mpr hc]

/-- The slot the producer fills holds the first 1536 bytes of the datagram. -/
theorem slot_written (r : Ring) (m : Mem) (data length : ℕ) (hc : (r.rxHead + 1) % dtlsRxSlots ≠ r.rxTail) :
    (r.dtlsRxCb m data length).slot r.rxHead = (m.read data length).take dtlsMaxDgram := by
  have hlt : min dtlsMaxDgram length < 65536 := by unfold dtlsMaxDgram; omega
  simp only [dtlsRxCb, if_neg hc, slot, Function.update_self, cut_eq_min, Nat.mod_eq_of_lt hlt,
    Mem.take_read]
  apply Mem.read_eq_read
  intro i hi
  simp [hi]

theorem slot_other (r : Ring) (m : Mem) (data length : ℕ) {i : ℕ} (hi : i ≠ r.rxHead) :
    (r.dtlsRxCb m data length).slot i = r.slot i := by
  by_cases hf : (r.rxHead + 1) % dtlsRxSlots = r.rxTail
  · simp only [dtlsRxCb, if_pos hf]
  · simp only [dtlsRxCb, if_neg hf, slot, Function.update_of_ne hi]

/-- **The producer pushes.** While fewer than seven datagrams are held, the
callback appends its first 1536 bytes. -/
theorem contents_dtlsRxCb {r : Ring} (hc : r.count < 7) (m : Mem) (data length : ℕ) :
    (r.dtlsRxCb m data length).contents =
      r.contents ++ [(m.read data length).take dtlsMaxDgram] := by
  have hnf : (r.rxHead + 1) % dtlsRxSlots ≠ r.rxTail := fun he => by
    have := (full_iff r).mp he; omega
  have hh : (r.dtlsRxCb m data length).rxHead = (r.rxHead + 1) % dtlsRxSlots := by
    simp [dtlsRxCb, hnf]
  have ht : (r.dtlsRxCb m data length).rxTail = r.rxTail := by simp [dtlsRxCb, hnf]
  have hcount : (r.dtlsRxCb m data length).count = r.count + 1 := by
    have h1 := r.head_lt
    have h2 := r.tail_lt
    rw [count, hh, ht]
    unfold count dtlsRxSlots at *
    omega
  have hlast : (r.rxTail + r.count) % dtlsRxSlots = r.rxHead := by
    have h1 := r.head_lt
    have h2 := r.tail_lt
    unfold count dtlsRxSlots at *
    omega
  rw [contents, hcount, List.range_succ, List.map_append, ht]
  congr 1
  · apply List.map_congr_left
    intro i hi
    apply slot_other
    have h1 := r.head_lt
    have h2 := r.tail_lt
    rw [List.mem_range] at hi
    unfold count dtlsRxSlots at *
    omega
  · simp only [List.map_cons, List.map_nil, hlast, slot_written r m data length hnf]

/-- An empty ring has nothing to return. -/
theorem dtlsRecvCb_empty {r : Ring} (hc : r.contents = []) (sz : ℕ) :
    r.dtlsRecvCb sz = (r, none) := by
  have h0 : r.count = 0 := by rw [← length_contents, hc]; rfl
  simp [dtlsRecvCb, (empty_iff r).mpr h0]

/-- Moving the tail past the oldest datagram leaves the others. -/
theorem contents_tail {r : Ring} (hne : r.rxHead ≠ r.rxTail) :
    r.contents = r.slot r.rxTail :: r.advance.contents := by
  have h1 := r.head_lt
  have h2 := r.tail_lt
  have hcount : r.count = r.advance.count + 1 := by
    unfold count advance dtlsRxSlots at *
    simp only
    omega
  rw [contents, hcount, List.range_succ_eq_map, List.map_cons, contents, List.map_map]
  congr 1
  · rw [Nat.add_zero, Nat.mod_eq_of_lt h2]
  · apply List.map_congr_left
    intro i _
    have : (r.rxTail + (i + 1)) % dtlsRxSlots = ((r.rxTail + 1) % dtlsRxSlots + i) % dtlsRxSlots := by
      unfold dtlsRxSlots; omega
    simp only [Function.comp_apply, Nat.succ_eq_add_one, this]
    rfl

/-- **The consumer pops.** A call returns the oldest datagram, cut to its
buffer, and removes it. -/
theorem contents_dtlsRecvCb {r : Ring} {d : List UInt8} {ds : List (List UInt8)}
    (hc : r.contents = d :: ds) (sz : ℕ) :
    (r.dtlsRecvCb sz).2 = some (d.take sz) ∧ (r.dtlsRecvCb sz).1.contents = ds := by
  have hne : r.rxHead ≠ r.rxTail := by
    intro he
    have h0 := (empty_iff r).mp he
    rw [← length_contents, hc] at h0
    simp at h0
  rw [contents_tail hne] at hc
  obtain ⟨hd, hds⟩ := List.cons.inj hc
  refine ⟨?_, ?_⟩
  · simp only [dtlsRecvCb, if_neg hne, cut_eq_min, ← hd, slot, Mem.take_read]
  · simpa only [dtlsRecvCb, if_neg hne] using hds

/-- A sequence of calls returns the datagrams held, oldest first, each cut to
its call's buffer, and then nothing. -/
theorem recvCalls_getElem? : ∀ (szs : List ℕ) (r : Ring) (i : ℕ),
    (r.recvCalls szs)[i]? = szs[i]?.map fun sz => r.contents[i]?.map (List.take sz)
  | [], r, i => by simp [recvCalls]
  | sz :: szs, r, i => by
    rw [recvCalls]
    cases hc : r.contents with
    | nil =>
      rw [dtlsRecvCb_empty hc]
      cases i with
      | zero => simp
      | succ i => simpa [hc] using recvCalls_getElem? szs r i
    | cons d ds =>
      obtain ⟨hd, hds⟩ := contents_dtlsRecvCb hc sz
      cases i with
      | zero => simp [hd]
      | succ i => simpa [hds] using recvCalls_getElem? szs (r.dtlsRecvCb sz).1 i

end Ring

/-! ### A node -/

/-- The globals of `udp.c` and `dtls_io.c` together. -/
structure Node where
  eth : Eth
  ring : Ring
  gLocalPort : UInt16
  gPeerPort : UInt16

namespace Node

variable (soc : Soc)

/-- `process_frame`, whose receive callback is `dtls_rx_cb`. -/
def processFrame (n : Node) : Node :=
  match n.eth.processFrame soc with
  | (e, none) => { n with eth := e }
  | (e, some d) => { n with eth := e, ring := n.ring.dtlsRxCb e.mem d.data d.length }

/-- `udp_service` has read the slot and length registers. -/
def fetch (n : Node) (slot len : ℕ) : Node :=
  { n with eth := { n.eth with rxSlot := slot, rxBuffer := rxAddr slot, rxLen := len } }

/-- The body of `udp_service` for the frame the registers show. -/
def service (n : Node) (slot len : ℕ) : Node := (n.fetch slot len).processFrame soc

/-- The datagram, `length` bytes from `data` on, that the body of `udp_service`
hands to `dtls_rx_cb`, if it calls it. -/
def callback (n : Node) (slot len : ℕ) : Option (List UInt8) :=
  match (n.fetch slot len).eth.processFrame soc with
  | (_, none) => none
  | (e, some d) => some (e.mem.read d.data d.length)

/-- The MAC stores a received frame in a slot; what the slot held beyond the
frame's end stays. -/
def store (n : Node) (slot : ℕ) (frame : List UInt8) : Node :=
  { n with eth := { n.eth with mem := n.eth.mem.write (rxAddr slot) frame } }

/-- One record, one datagram. A record that is empty or too long is refused. -/
def dtlsSendCb (n : Node) (buf : Mem) (sz : ℤ) : Node × ℤ :=
  if sz ≤ 0 then (n, cbioErrGeneral)
  else if sz > dtlsMaxDgram then (n, cbioErrGeneral)
  else
    let c := execAll soc (Call.start n.eth buf sz.toNat n.gLocalPort n.gPeerPort) (sendProg sz.toNat)
    ({ n with eth := c.eth }, c.ret.getD 0)

/-- `dtls_io_init`, the timer apart. -/
def dtlsIoInit (n : Node) (localPort peerPort : UInt16) : Node :=
  { n with
    gLocalPort := localPort
    gPeerPort := peerPort
    ring := n.ring.init
    eth := { n.eth with rxCallback := true } }

theorem service_eth (n : Node) (slot len : ℕ) :
    (n.service soc slot len).eth = ((n.fetch slot len).eth.processFrame soc).1 := by
  unfold service processFrame
  rcases (n.fetch slot len).eth.processFrame soc with ⟨e, _ | d⟩ <;> rfl

/-- Serving a frame touches the ring only through `dtls_rx_cb`. -/
theorem ring_service (n : Node) (slot len : ℕ) :
    (n.callback soc slot len = none ∧ (n.service soc slot len).ring = n.ring) ∨
    ∃ m data length, n.callback soc slot len = some (Mem.read m data length) ∧
      (n.service soc slot len).ring = n.ring.dtlsRxCb m data length := by
  unfold callback service processFrame
  rcases (n.fetch slot len).eth.processFrame soc with ⟨e, _ | d⟩
  · exact Or.inl ⟨rfl, rfl⟩
  · exact Or.inr ⟨e.mem, d.data, d.length, rfl, rfl⟩

/-! ### The node of `main` -/

/-- The globals before `main` runs, all zero. -/
def boot : Node where
  eth :=
    { mem := fun _ => 0, rxSlot := 0, rxLen := 0, rxBuffer := 0, txSlot := 0, txLen := 0, txBuffer := 0,
      myMac := fun _ => 0, myIp := 0, cachedMac := fun _ => 0, cachedIp := 0, pingSeqNumber := 0,
      pingTsSend := 0, rxCallback := false, readerSlot := 0, readerLength := 0, started := [] }
  ring :=
    { rxBuf := fun _ _ => 0, rxLen := fun _ => 0, rxHead := 0, rxTail := 0, head_lt := by decide,
      tail_lt := by decide }
  gLocalPort := 0
  gPeerPort := 0

/-- `IPTOINT(192, 168, 1, 50)` and `IPTOINT(192, 168, 1, 100)` -/
def myIp : UInt32 := 0xc0a80132
def serverIp : UInt32 := 0xc0a80164

/-- `main` at the end of `dtls_io_init`, with the server's address in the ARP
cache. The two frames that found it there are left out. -/
def client (serverMac : MacAddr) : Node :=
  let e := boot.eth.udpStart soc ![2, 0, 0, 0, 0, 1] myIp
  dtlsIoInit { boot with eth := { e with cachedIp := serverIp, cachedMac := serverMac } } 5555 11111

theorem client_txOk (serverMac : MacAddr) : (client soc serverMac).eth.TxOk soc := ⟨soc.txPos, rfl⟩

/-- The client of the simulated SoC, with a server it has found. -/
def simClient : Node := client Soc.sim ![0x10, 0xe2, 0xd5, 0, 0, 1]

end Node
end PqcDtls
