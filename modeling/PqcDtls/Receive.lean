/-
# From a received frame to the ring

What `process_frame` makes of a frame the MAC has stored: the callback it
makes depends on the frame's header fields alone (`Accepts`), and on those of
the frame only, because a frame shorter than the headers is refused
(`processFrame_stored`). The datagram handed to `dtls_rx_cb` is as long as the
frame's UDP length field says, wherever the frame ends.
-/
import PqcDtls.Frame
import PqcDtls.DtlsIo

namespace PqcDtls

open Lib

variable (soc : Soc)

/-! ### Fields of a block of memory -/

theorem byte_of_read {m : Mem} {a n : ℕ} {l : List UInt8} (h : m.read a n = l) {i : ℕ} (hi : i < n) :
    m (a + i) = l.getD i 0 := by
  subst h
  simp [List.getD, hi]

theorem ntohl_of_read {m : Mem} {a : ℕ} {v : UInt32} (h : m.read a 4 = be32 v) :
    ntohl (m.load32 a) = v :=
  ntohl_load32 (byte_of_read h (i := 0) (by omega)) (byte_of_read h (i := 1) (by omega))
    (byte_of_read h (i := 2) (by omega)) (byte_of_read h (i := 3) (by omega))

theorem read_eq_be32 (m : Mem) (a : ℕ) : m.read a 4 = be32 (ntohl (m.load32 a)) := by
  rw [be32_ntohl_load32]
  rfl

theorem ntohl_eq_iff (m : Mem) (a : ℕ) (v : UInt32) :
    ntohl (m.load32 a) = v ↔ m.read a 4 = be32 v :=
  ⟨fun h => by rw [← h]; exact read_eq_be32 m a, ntohl_of_read⟩

/-! ### The frames that reach the callback -/

/-- The frame is a UDP packet to `ip`, by the tests of `process_frame` and
`process_udp`. -/
structure Accepts (ip : UInt32) (f : List UInt8) : Prop where
  length : 42 ≤ f.length
  etherType : field16 f 12 = 0x0800
  version : f.getD 14 0 = 0x45
  proto : f.getD 23 0 = 0x11
  dstIp : slice f 30 4 = be32 ip
  ipLength : 28 ≤ field16 f 16
  udpLength : 8 ≤ field16 f 38

theorem accepts_iff (ip : UInt32) (f : List UInt8) : Accepts ip f ↔
    42 ≤ f.length ∧ field16 f 12 = 0x0800 ∧ f.getD 14 0 = 0x45 ∧ f.getD 23 0 = 0x11 ∧
      slice f 30 4 = be32 ip ∧ 28 ≤ field16 f 16 ∧ 8 ≤ field16 f 38 :=
  ⟨fun ⟨h1, h2, h3, h4, h5, h6, h7⟩ => ⟨h1, h2, h3, h4, h5, h6, h7⟩,
    fun ⟨h1, h2, h3, h4, h5, h6, h7⟩ => ⟨h1, h2, h3, h4, h5, h6, h7⟩⟩

instance (ip : UInt32) (f : List UInt8) : Decidable (Accepts ip f) :=
  decidable_of_iff' _ (accepts_iff ip f)

/-- The frame `f` of `len` bytes is in the slot the receive globals name. -/
structure Eth.Fetched (e : Eth) (f : List UInt8) : Prop where
  len : e.rxLen = f.length
  bytes : ∀ i, i < f.length → e.mem (e.rxBuffer + i) = f.getD i 0

namespace Eth.Fetched

variable {e : Eth} {f : List UInt8}

theorem field (h : e.Fetched f) (off : ℕ) (hoff : off + 2 ≤ f.length) :
    (ntohs (e.rx16 off)).toNat = field16 f off := by
  rw [Eth.rx16, ntohs_load16_toNat, h.bytes off (by omega), Nat.add_assoc, h.bytes (off + 1) (by omega),
    field16]

theorem read_slice (h : e.Fetched f) {off n : ℕ} (hoff : off + n ≤ f.length) :
    e.mem.read (e.rxBuffer + off) n = slice f off n := by
  apply List.ext_getElem
  · simp [slice]; omega
  · intro i h1 h2
    have hi : i < n := by simpa using h1
    rw [Mem.getElem_read, Nat.add_assoc, h.bytes (off + i) (by omega)]
    simp [slice, List.getD, show off + i < f.length by omega]

end Eth.Fetched

theorem processUdp_some {e : Eth} {d : Eth.Delivery} (h : e.processUdp = some d) :
    42 ≤ e.rxLen ∧ 28 ≤ (ntohs (e.rx16 16)).toNat ∧ 8 ≤ (ntohs (e.rx16 38)).toNat ∧
      e.rxCallback = true := by
  unfold Eth.processUdp at h
  by_cases g1 : e.rxLen < 42
  · rw [if_pos g1] at h; cases h
  rw [if_neg g1] at h
  by_cases g2 : (ntohs (e.rx16 16)).toNat < 28
  · rw [if_pos g2] at h; cases h
  rw [if_neg g2] at h
  by_cases g3 : e.rx8 23 ≠ 0x11
  · rw [if_pos g3] at h; cases h
  rw [if_neg g3] at h
  by_cases g4 : (ntohs (e.rx16 38)).toNat < 8
  · rw [if_pos g4] at h; cases h
  rw [if_neg g4] at h
  by_cases g5 : ntohl (e.rx32 30) ≠ e.myIp
  · rw [if_pos g5] at h; cases h
  rw [if_neg g5] at h
  by_cases g6 : e.rxCallback = true
  · exact ⟨by omega, by omega, by omega, g6⟩
  · rw [if_neg g6] at h; cases h

theorem processFrame_some {e : Eth} {d : Eth.Delivery} (h : (e.processFrame soc).2 = some d) :
    ntohs (e.rx16 12) = 0x0800 ∧ e.rx8 14 = 0x45 ∧ ntohl (e.rx32 30) = e.myIp ∧ e.rx8 23 = 0x11 ∧
      e.processUdp = some d := by
  unfold Eth.processFrame at h
  by_cases g1 : ntohs (e.rx16 12) = 0x0806
  · rw [if_pos g1] at h; cases h
  rw [if_neg g1] at h
  by_cases g2 : ntohs (e.rx16 12) = 0x0800
  swap
  · rw [if_neg g2] at h; cases h
  rw [if_pos g2] at h
  by_cases g3 : e.rx8 14 = 0x45
  swap
  · rw [if_pos g3] at h; cases h
  rw [if_neg (not_not.mpr g3)] at h
  by_cases g4 : ntohl (e.rx32 30) = e.myIp
  swap
  · rw [if_pos g4] at h; cases h
  rw [if_neg (not_not.mpr g4)] at h
  by_cases g5 : e.rx8 23 = 0x11
  · rw [if_pos g5] at h
    exact ⟨g2, g3, g4, g5, h⟩
  · rw [if_neg g5] at h
    split_ifs at h

/-- A frame that is accepted makes one callback, with the bytes behind its
headers, as many as its UDP length field says. -/
theorem processFrame_accepts {e : Eth} {f : List UInt8} (h : e.Fetched f) (ha : Accepts e.myIp f)
    (hcb : e.rxCallback = true) :
    ∃ d : Eth.Delivery, e.processFrame soc = (e, some d) ∧ d.data = e.rxBuffer + 42 ∧
      d.length = field16 f 38 - 8 := by
  obtain ⟨a0, a1, a2, a3, a4, a5, a6⟩ := ha
  have h12 : ntohs (e.rx16 12) = 0x0800 := by
    rw [← UInt16.toNat_inj, h.field _ (by omega)]
    exact a1
  have h14 : e.rx8 14 = 0x45 := (h.bytes 14 (by omega)).trans a2
  have h23 : e.rx8 23 = 0x11 := (h.bytes 23 (by omega)).trans a3
  have h30 : ntohl (e.rx32 30) = e.myIp := by
    rw [Eth.rx32, ntohl_eq_iff, h.read_slice (by omega)]
    exact a4
  have h16 := h.field 16 (by omega)
  have h38 := h.field 38 (by omega)
  have hudp : e.processUdp = some ⟨ntohl (e.rx32 26), ntohs (e.rx16 34), ntohs (e.rx16 36),
      e.rxBuffer + 42, (ntohs (e.rx16 38)).toNat - 8⟩ := by
    rw [Eth.processUdp, if_neg (by rw [h.len]; omega), if_neg (by omega), if_neg (not_not.mpr h23),
      if_neg (by omega), if_neg (not_not.mpr h30), if_pos hcb]
  refine ⟨⟨ntohl (e.rx32 26), ntohs (e.rx16 34), ntohs (e.rx16 36), e.rxBuffer + 42,
    (ntohs (e.rx16 38)).toNat - 8⟩, ?_, rfl, by rw [← h38]⟩
  rw [Eth.processFrame, if_neg (by rw [h12]; decide), if_pos h12, if_neg (not_not.mpr h14),
    if_neg (not_not.mpr h30), if_pos h23, hudp]

/-- A frame that makes a callback is accepted: a frame shorter than the headers
is refused before what lies behind it could count. -/
theorem accepts_of_some {e : Eth} {f : List UInt8} (h : e.Fetched f) {d : Eth.Delivery}
    (hd : (e.processFrame soc).2 = some d) : Accepts e.myIp f ∧ e.rxCallback = true := by
  obtain ⟨g1, g2, g3, g4, hudp⟩ := processFrame_some soc hd
  obtain ⟨g5, g6, g7, hcb⟩ := processUdp_some hudp
  rw [h.len] at g5
  refine ⟨⟨g5, ?_, ?_, ?_, ?_, ?_, ?_⟩, hcb⟩
  · rw [← h.field _ (by omega), g1]; rfl
  · rw [← h.bytes 14 (by omega)]; exact g2
  · rw [← h.bytes 23 (by omega)]; exact g4
  · rw [← h.read_slice (by omega), ← ntohl_eq_iff]; exact g3
  · rw [← h.field _ (by omega)]; exact g6
  · rw [← h.field _ (by omega)]; exact g7

namespace Node

/-! ### A stored frame -/

theorem fetched_store (n : Node) (slot : ℕ) (f : List UInt8) :
    ((n.store slot f).fetch slot f.length).eth.Fetched f := by
  refine ⟨rfl, fun i hi => ?_⟩
  show (n.eth.mem.write (rxAddr slot) f) (rxAddr slot + i) = f.getD i 0
  rw [Mem.write_apply_of_lt _ _ hi]
  simp [List.getD, hi]

/-- A frame that is not accepted leaves the ring as it is. -/
theorem service_refused (n : Node) (slot : ℕ) (f : List UInt8)
    (h : ¬ (Accepts n.eth.myIp f ∧ n.eth.rxCallback = true)) :
    ((n.store slot f).service soc slot f.length).ring = n.ring := by
  unfold service processFrame
  have hf := fetched_store n slot f
  have hsome := fun d => accepts_of_some soc hf (d := d)
  revert hsome
  rcases ((n.store slot f).fetch slot f.length).eth.processFrame soc with ⟨e, _ | d⟩
  · intro _
    rfl
  · intro hsome
    exact absurd (hsome d rfl) h

/-- An accepted frame hands the ring what the slot holds behind the headers,
as long as the UDP length field says. -/
theorem service_accepts (n : Node) (slot : ℕ) (f : List UInt8) (h : Accepts n.eth.myIp f)
    (hcb : n.eth.rxCallback = true) :
    ((n.store slot f).service soc slot f.length).ring =
      n.ring.dtlsRxCb (n.store slot f).eth.mem (rxAddr slot + 42) (field16 f 38 - 8) := by
  obtain ⟨d, hd, hdata, hlen⟩ := processFrame_accepts soc (fetched_store n slot f) h hcb
  unfold service processFrame
  rw [hd]
  show n.ring.dtlsRxCb (n.store slot f).eth.mem d.data d.length = _
  rw [hdata, hlen]
  rfl

end Node
end PqcDtls
