/-
# What the receive slot held before

A received frame overwrites the first bytes of its slot; behind them the slot
keeps what an earlier frame left there. `process_udp` compares the frame length
with the headers only, and hands out as many bytes as the UDP length field
claims, so the result of `dtls_recv_cb` can depend on the earlier contents.
`frameOnly_iff` says exactly when it does not: the datagram, cut to the ring's
slots and to the reader's buffer, has to end inside the frame.
-/
import PqcDtls.Receive

namespace PqcDtls

open Lib

variable (soc : Soc)

/-- What a sequence of calls of `dtls_recv_cb` returns after the frame `f` was
stored over the earlier contents `old` of its slot and served. -/
def recvAfter (n : Node) (slot : ℕ) (old f : List UInt8) (szs : List ℕ) : List (Option (List UInt8)) :=
  (((n.store slot old).store slot f).service soc slot f.length).ring.recvCalls szs

/-- The calls see nothing of the slot but the frame: the results are the same
for any two earlier contents, and the datagram that the frame brings is a part
of the frame, from the UDP payload on. -/
structure FrameOnly (n : Node) (slot : ℕ) (f : List UInt8) (szs : List ℕ) : Prop where
  same : ∀ old old', old.length = 2048 → old'.length = 2048 →
    recvAfter soc n slot old f szs = recvAfter soc n slot old' f szs
  inFrame : ∀ old d, old.length = 2048 →
    (recvAfter soc n slot old f szs)[n.ring.count]? = some (some d) →
    ∃ k, 42 + k ≤ f.length ∧ d = slice f 42 k

/-- The length of the datagram a call with a buffer of `sz` bytes gets. -/
def recvLen (f : List UInt8) (sz : ℕ) : ℕ := min sz (min dtlsMaxDgram (field16 f 38 - 8))

/-- The datagram ends inside the frame, for the call that gets it. -/
def EndsInFrame (n : Node) (f : List UInt8) (szs : List ℕ) : Prop :=
  Accepts n.eth.myIp f → n.eth.rxCallback = true → n.ring.count < 7 →
    ∀ sz, szs[n.ring.count]? = some sz → 42 + recvLen f sz ≤ f.length

/-- The results, frame refused or ring full: those of the datagrams held before. -/
theorem recvAfter_unchanged {n : Node} {f : List UInt8}
    (h : ¬ (Accepts n.eth.myIp f ∧ n.eth.rxCallback = true ∧ n.ring.count < 7)) (slot : ℕ)
    (old : List UInt8) (szs : List ℕ) : recvAfter soc n slot old f szs = n.ring.recvCalls szs := by
  unfold recvAfter
  by_cases ha : Accepts n.eth.myIp f ∧ n.eth.rxCallback = true
  · have hfull : n.ring.count = 7 := by
      have := n.ring.count_le
      have hc : ¬ n.ring.count < 7 := fun hc => h ⟨ha.1, ha.2, hc⟩
      omega
    rw [Node.service_accepts soc (n.store slot old) slot f ha.1 ha.2]
    exact congrArg (Ring.recvCalls · szs) (Ring.dtlsRxCb_full hfull _ _ _)
  · rw [Node.service_refused soc (n.store slot old) slot f ha]
    rfl

/-- The results, frame accepted: the datagram joins those held before. -/
theorem recvAfter_accepted {n : Node} {f : List UInt8} (ha : Accepts n.eth.myIp f)
    (hcb : n.eth.rxCallback = true) (hroom : n.ring.count < 7) (slot : ℕ) (old : List UInt8)
    (szs : List ℕ) (i : ℕ) :
    (recvAfter soc n slot old f szs)[i]? = szs[i]?.map fun sz =>
      if i = n.ring.count then
        some (((n.store slot old).store slot f).eth.mem.read (rxAddr slot + 42) (recvLen f sz))
      else n.ring.contents[i]?.map (List.take sz) := by
  have hc := Ring.contents_dtlsRxCb hroom ((n.store slot old).store slot f).eth.mem (rxAddr slot + 42)
    (field16 f 38 - 8)
  have hr := Node.service_accepts soc (n.store slot old) slot f ha hcb
  rw [recvAfter, hr, Ring.recvCalls_getElem?, show (n.store slot old).ring = n.ring from rfl, hc]
  congr 1
  funext sz
  by_cases hi : i = n.ring.count
  · rw [if_pos hi, hi, ← Ring.length_contents, List.getElem?_concat_length, Option.map_some,
      Mem.take_read, Mem.take_read, recvLen]
  · rw [if_neg hi]
    rcases Nat.lt_or_gt_of_ne hi with hlt | hgt
    · rw [List.getElem?_append_left (by rw [Ring.length_contents]; exact hlt)]
    · rw [List.getElem?_eq_none (by rw [List.length_append, Ring.length_contents]; simpa using hgt),
        List.getElem?_eq_none (by rw [Ring.length_contents]; omega)]

theorem read_stored (n : Node) (slot : ℕ) (old f : List UInt8) {k : ℕ} (h : 42 + k ≤ f.length) :
    ((n.store slot old).store slot f).eth.mem.read (rxAddr slot + 42) k = slice f 42 k :=
  ((n.store slot old).fetched_store slot f).read_slice h

/-- A datagram that runs past the frame shows the earlier contents. -/
theorem endsInFrame_of_frameOnly {n : Node} {slot : ℕ} {f : List UInt8} {szs : List ℕ}
    (h : FrameOnly soc n slot f szs) : EndsInFrame n f szs := by
  intro ha hcb hroom sz hsz
  have hres := recvAfter_accepted soc ha hcb hroom slot (List.replicate 2048 0) szs n.ring.count
  rw [hsz, Option.map_some, if_pos rfl] at hres
  obtain ⟨k, hk, hd⟩ := h.inFrame _ _ List.length_replicate hres
  have hlen := congrArg List.length hd
  simp only [Mem.length_read, slice, List.length_take, List.length_drop] at hlen
  omega

theorem frameOnly_of_endsInFrame {n : Node} {f : List UInt8} {szs : List ℕ} (h : EndsInFrame n f szs)
    (slot : ℕ) : FrameOnly soc n slot f szs := by
  by_cases hacc : Accepts n.eth.myIp f ∧ n.eth.rxCallback = true ∧ n.ring.count < 7
  · obtain ⟨ha, hcb, hroom⟩ := hacc
    have hres : ∀ old i, (recvAfter soc n slot old f szs)[i]? = szs[i]?.map fun sz =>
        if i = n.ring.count then some (slice f 42 (recvLen f sz))
        else n.ring.contents[i]?.map (List.take sz) := by
      intro old i
      rw [recvAfter_accepted soc ha hcb hroom]
      cases hsz : szs[i]? with
      | none => rfl
      | some sz =>
        by_cases hi : i = n.ring.count
        · simp only [Option.map_some, if_pos hi]
          rw [read_stored n slot old f (h ha hcb hroom sz (by rw [← hi]; exact hsz))]
        · simp only [Option.map_some, if_neg hi]
    refine ⟨fun old old' _ _ => List.ext_getElem? fun i => by rw [hres, hres], fun old d _ hd => ?_⟩
    rw [hres, Option.map_eq_some_iff] at hd
    obtain ⟨sz, hsz, hd⟩ := hd
    rw [if_pos rfl, Option.some.injEq] at hd
    exact ⟨recvLen f sz, h ha hcb hroom sz hsz, hd.symm⟩
  · refine ⟨fun old old' _ _ => ?_, fun old d _ hd => ?_⟩
    · rw [recvAfter_unchanged soc hacc, recvAfter_unchanged soc hacc]
    · -- no datagram of this frame: the call finds none at its position
      rw [recvAfter_unchanged soc hacc, Ring.recvCalls_getElem?,
        List.getElem?_eq_none (by rw [Ring.length_contents])] at hd
      simp at hd

/-- **When the result depends on the frame only.** For every frame, well-formed
or not, every node and every sequence of calls: exactly when the datagram, if
one is delivered, ends inside the frame. -/
theorem frameOnly_iff (n : Node) (slot : ℕ) (f : List UInt8) (szs : List ℕ) :
    FrameOnly soc n slot f szs ↔ EndsInFrame n f szs :=
  ⟨endsInFrame_of_frameOnly soc, fun h => frameOnly_of_endsInFrame soc h slot⟩

/-- A frame of the minimum length to the client, with 18 bytes of payload and
a UDP length field of 108. -/
def overlongFrame : List UInt8 :=
  [2, 0, 0, 0, 0, 1, 0x10, 0xe2, 0xd5, 0, 0, 1, 8, 0,
    0x45, 0, 0, 46, 0, 0, 0x40, 0, 64, 0x11, 0, 0, 192, 168, 1, 100, 192, 168, 1, 50,
    0x2b, 0x67, 0x15, 0xb3, 0, 108, 0, 0] ++ List.replicate 18 7

/-- The frame brings 18 bytes of payload, and a call with room for a record
gets 100: the other 82 are what the slot held before. -/
theorem overlongFrame_leaks : ¬ FrameOnly Soc.sim Node.simClient 0 overlongFrame [1400] := by
  intro h
  have hend := endsInFrame_of_frameOnly Soc.sim h (by decide) rfl (by decide) 1400 rfl
  exact absurd hend (by decide)

end PqcDtls
