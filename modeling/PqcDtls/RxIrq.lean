/-
# Interrupt-driven receive

The `DTLS_RX_IRQ` build between `dtls_io_enable_irq` and the cleanup of `main`:
the main loop calls `dtls_recv_cb`, whose reads and writes are single steps
(`RecvPc`), and `ethmac_rx_isr` may start between any two of them whenever the
MAC has a frame pending; it serves frame after frame until none is pending, and
the main loop stands still meanwhile. Frames arrive at any moment. Of the MAC
the system assumes a queue of (slot, length): a frame is stored in a slot that
no queued frame uses, the pending bit says that the queue is not empty, and an
acknowledge removes the head.

`rx_recv_refines_fifo`: along every run, what the callbacks push and the calls
return is a history of the FIFO queue of capacity seven, whose entries are in
the ring.
-/
import PqcDtls.Lib.Run
import PqcDtls.Lib.Fifo
import PqcDtls.DtlsIo

namespace PqcDtls
namespace RxIrq

open Lib

/-- Where the main loop stands in `dtls_recv_cb`. -/
inductive RecvPc where
  /-- Outside the callback. -/
  | idle
  /-- Before the read of `rx_head`. -/
  | readHead (sz : ℕ)
  /-- Before the read of `rx_len[rx_tail]`. -/
  | readLen (sz : ℕ)
  /-- In the `memcpy` of `n` bytes, `out` copied so far; then the write of `rx_tail`. -/
  | copy (sz n : ℕ) (out : List UInt8)

/-- What the two sides of the ring do. -/
inductive Obs where
  /-- The callback copied the datagram `d` (its `length` bytes) into the ring. -/
  | accepted (d : List UInt8)
  /-- The callback found the ring full. -/
  | dropped (d : List UInt8)
  /-- A call with a buffer of `sz` bytes returned the datagram `out`. -/
  | returned (sz : ℕ) (out : List UInt8)
  /-- A call returned `WANT_READ`. -/
  | wantRead
  deriving DecidableEq

/-- A state of the system, with what has happened to its ring so far. -/
structure State where
  node : Node
  /-- The MAC's queue of received frames. -/
  queue : List (ℕ × ℕ)
  inIsr : Bool
  pc : RecvPc
  trace : List Obs

/-- `dtls_io_init` is done, the MAC may hold frames already. -/
def start (n : Node) (queue : List (ℕ × ℕ)) : State :=
  { node := { n with ring := n.ring.init }, queue, inIsr := false, pc := .idle, trace := [] }

inductive Label where
  /-- The MAC accepts a frame into a free slot. -/
  | arrive (slot : ℕ) (frame : List UInt8)
  /-- The interrupt is taken. -/
  | enter
  /-- One round of the ISR: `udp_service` serves the head and acknowledges it. -/
  | serve
  /-- The ISR finds nothing pending and returns. -/
  | exit
  /-- wolfSSL calls `dtls_recv_cb` with a buffer of `sz` bytes. -/
  | call (sz : ℕ)
  /-- The next step of the call. -/
  | recv
  /-- Anything else the main loop does: the rest of the stack may change, the
  ring does not. -/
  | other (e : Eth)

/-- What a callback with datagram `d` does: it drops it if the producer's next
slot is the consumer's. -/
def callbackObs (r : Ring) (d : List UInt8) : Obs :=
  if (r.rxHead + 1) % dtlsRxSlots = r.rxTail then .dropped d else .accepted d

/-- The next step of `dtls_recv_cb`. `rx_tail` is written by this side only. -/
def recvStep (s : State) : Option State :=
  let r := s.node.ring
  match s.pc with
  | .idle => none
  | .readHead sz =>
    if r.rxHead = r.rxTail then some { s with pc := .idle, trace := s.trace ++ [.wantRead] }
    else some { s with pc := .readLen sz }
  | .readLen sz =>
    some { s with pc := .copy sz (if r.rxLen r.rxTail > sz then sz else r.rxLen r.rxTail) [] }
  | .copy sz n out =>
    if out.length < n then some { s with pc := .copy sz n (out ++ [r.rxBuf r.rxTail out.length]) }
    else
      some { s with
        node := { s.node with ring := r.advance }
        pc := .idle
        trace := s.trace ++ [.returned sz out] }

variable (soc : Soc)

/-- One step of the system. -/
def step (s : State) : Label → Option State
  | .arrive slot frame =>
    if slot < soc.rxSlots ∧ slot ∉ s.queue.map (·.1) ∧ frame.length ≤ 2048 then
      some { s with node := s.node.store slot frame, queue := s.queue ++ [(slot, frame.length)] }
    else none
  | .enter => if s.inIsr = true ∨ s.queue = [] then none else some { s with inIsr := true }
  | .serve =>
    match s.inIsr, s.queue with
    | true, (slot, len) :: q =>
      some { s with
        node := s.node.service soc slot len
        queue := q
        trace := s.trace ++ ((s.node.callback soc slot len).map (callbackObs s.node.ring)).toList }
    | _, _ => none
  | .exit => if s.inIsr = true ∧ s.queue = [] then some { s with inIsr := false } else none
  | .call sz =>
    match s.inIsr, s.pc with
    | false, .idle => some { s with pc := .readHead sz }
    | _, _ => none
  | .recv => if s.inIsr = true then none else recvStep s
  | .other e =>
    match s.inIsr, s.pc with
    | false, .idle => some { s with node := { s.node with eth := e } }
    | _, _ => none

/-! ### What the ring holds, seen from the queue -/

/-- An observation of the ring and an event of the queue of datagrams: a
datagram leaves cut to the ring's slots and to the reader's buffer. -/
inductive Matches : Obs → FifoEv (List UInt8) → Prop where
  | accepted (d : List UInt8) : Matches (.accepted d) (.push d)
  | dropped (d : List UInt8) : Matches (.dropped d) (.drop d)
  | returned (sz : ℕ) (d : List UInt8) :
      Matches (.returned sz ((d.take dtlsMaxDgram).take sz)) (.pop d)
  | wantRead : Matches .wantRead .empty

/-- What the consumer knows between two of its steps. -/
def PcOk (r : Ring) : RecvPc → Prop
  | .idle => True
  | .readHead _ => True
  | .readLen _ => r.rxHead ≠ r.rxTail
  | .copy sz n out => r.rxHead ≠ r.rxTail ∧ n = min sz (r.rxLen r.rxTail) ∧ out.length ≤ n ∧
      out = (r.rxBuf r.rxTail).read 0 out.length

/-- The trace is a history of the queue, and the queue is in the ring. -/
structure Inv (s : State) (evs : List (FifoEv (List UInt8))) (held : List (List UInt8)) : Prop where
  fifo : FifoRun 7 evs held
  trace : List.Forall₂ Matches s.trace evs
  ring : s.node.ring.contents = held.map (List.take dtlsMaxDgram)
  pc : PcOk s.node.ring s.pc

theorem start_inv (n : Node) (queue : List (ℕ × ℕ)) : Inv (start n queue) [] [] :=
  ⟨.nil, .nil, Ring.contents_init _, trivial⟩

theorem held_length {s : State} {evs : List (FifoEv (List UInt8))} {held : List (List UInt8)}
    (h : Inv s evs held) : held.length = s.node.ring.count := by
  rw [← Ring.length_contents, h.ring, List.length_map]

/-- **The two sides do not meet.** A callback that lands in the middle of a
call leaves the slot the call reads as it is. -/
theorem pcOk_dtlsRxCb {r : Ring} {pc : RecvPc} (h : PcOk r pc) (m : Mem) (data length : ℕ) :
    PcOk (r.dtlsRxCb m data length) pc := by
  by_cases hf : (r.rxHead + 1) % dtlsRxSlots = r.rxTail
  · simpa only [Ring.dtlsRxCb, if_pos hf] using h
  · cases pc with
    | idle => trivial
    | readHead sz => trivial
    | readLen sz => simpa only [Ring.dtlsRxCb, if_neg hf, PcOk] using hf
    | copy sz n out =>
      obtain ⟨hne, hn, hlen, hout⟩ := h
      have ht : r.rxTail ≠ r.rxHead := fun he => hne he.symm
      simp only [Ring.dtlsRxCb, if_neg hf, PcOk, Function.update_of_ne ht]
      exact ⟨hf, hn, hlen, hout⟩

/-- A round of the ISR: a callback pushes, or drops when seven are held. -/
theorem serve_inv {s : State} {evs : List (FifoEv (List UInt8))} {held : List (List UInt8)}
    (h : Inv s evs held) (slot len : ℕ) (q : List (ℕ × ℕ)) :
    ∃ evs' held', Inv { s with
      node := s.node.service soc slot len
      queue := q
      trace := s.trace ++ ((s.node.callback soc slot len).map (callbackObs s.node.ring)).toList }
      evs' held' := by
  have hcount := held_length h
  rcases s.node.ring_service soc slot len with ⟨hc, hr⟩ | ⟨m, data, length, hc, hr⟩
  · refine ⟨evs, held, h.fifo, ?_, ?_, ?_⟩
    · simpa [hc] using h.trace
    · rw [hr]; exact h.ring
    · rw [hr]; exact h.pc
  · rw [hc]
    by_cases hfull : (s.node.ring.rxHead + 1) % dtlsRxSlots = s.node.ring.rxTail
    · have h7 := (Ring.full_iff _).mp hfull
      refine ⟨evs ++ [.drop (m.read data length)], held, h.fifo.snoc (.drop _ (by omega)), ?_, ?_, ?_⟩
      · simp only [Option.map_some, callbackObs, if_pos hfull, Option.toList_some]
        exact List.rel_append h.trace (.cons (.dropped _) .nil)
      · rw [hr, Ring.dtlsRxCb_full h7]; exact h.ring
      · rw [hr, Ring.dtlsRxCb_full h7]; exact h.pc
    · have h7 : s.node.ring.count < 7 := by
        have h1 := s.node.ring.count_le
        have h2 := mt (Ring.full_iff _).mpr hfull
        omega
      refine ⟨evs ++ [.push (m.read data length)], held ++ [m.read data length],
        h.fifo.snoc (.push _ (by omega)), ?_, ?_, ?_⟩
      · simp only [Option.map_some, callbackObs, if_neg hfull, Option.toList_some]
        exact List.rel_append h.trace (.cons (.accepted _) .nil)
      · rw [hr, Ring.contents_dtlsRxCb h7, h.ring, List.map_append, List.map_singleton]
      · rw [hr]; exact pcOk_dtlsRxCb h.pc m data length

/-- A step of the call: the last one pops, and returns what the queue's head holds. -/
theorem recv_inv {s t : State} {evs : List (FifoEv (List UInt8))} {held : List (List UInt8)}
    (h : Inv s evs held) (hs : recvStep s = some t) : ∃ evs' held', Inv t evs' held' := by
  have hcount := held_length h
  have hpc := h.pc
  unfold recvStep at hs
  cases hp : s.pc with
  | idle => simp [hp] at hs
  | readHead sz =>
    simp only [hp] at hs
    by_cases he : s.node.ring.rxHead = s.node.ring.rxTail
    · rw [if_pos he, Option.some.injEq] at hs
      subst hs
      have h0 := (Ring.empty_iff _).mp he
      obtain rfl : held = [] := List.length_eq_zero_iff.mp (by omega)
      exact ⟨evs ++ [.empty], [], h.fifo.snoc .empty, List.rel_append h.trace (.cons .wantRead .nil),
        h.ring, trivial⟩
    · rw [if_neg he, Option.some.injEq] at hs
      subst hs
      exact ⟨evs, held, h.fifo, h.trace, h.ring, he⟩
  | readLen sz =>
    simp only [hp, Option.some.injEq] at hs
    rw [hp] at hpc
    subst hs
    exact ⟨evs, held, h.fifo, h.trace, h.ring, hpc, Ring.cut_eq_min _ _, Nat.zero_le _, rfl⟩
  | copy sz n out =>
    simp only [hp] at hs
    rw [hp] at hpc
    obtain ⟨hne, hn, hlen, hout⟩ := hpc
    by_cases hlt : out.length < n
    · rw [if_pos hlt, Option.some.injEq] at hs
      subst hs
      refine ⟨evs, held, h.fifo, h.trace, h.ring, hne, hn, by simpa using hlt, ?_⟩
      rw [List.length_append, List.length_singleton, Mem.read_succ, Nat.zero_add, ← hout]
    · rw [if_neg hlt, Option.some.injEq] at hs
      subst hs
      have hring := h.ring
      rw [Ring.contents_tail hne] at hring
      obtain ⟨d, ds, rfl⟩ : ∃ d ds, held = d :: ds := by
        cases held with
        | nil => simp at hring
        | cons d ds => exact ⟨d, ds, rfl⟩
      obtain ⟨hd, hds⟩ := List.cons.inj hring
      have hout' : out = (d.take dtlsMaxDgram).take sz := by
        rw [← hd, Ring.slot, Mem.take_read, ← hn, hout, show out.length = n by omega]
      refine ⟨evs ++ [.pop d], ds, h.fifo.snoc (.pop d), ?_, hds, trivial⟩
      refine List.rel_append h.trace (.cons ?_ .nil)
      rw [hout']
      exact .returned sz d

theorem step_inv {s t : State} {l : Label} (hs : step soc s l = some t)
    (h : ∃ evs held, Inv s evs held) : ∃ evs held, Inv t evs held := by
  obtain ⟨evs, held, h⟩ := h
  cases l with
  | arrive slot frame =>
    unfold step at hs
    dsimp only at hs
    split_ifs at hs
    obtain rfl := Option.some.inj hs
    exact ⟨evs, held, h.fifo, h.trace, h.ring, h.pc⟩
  | enter =>
    unfold step at hs
    dsimp only at hs
    split_ifs at hs
    obtain rfl := Option.some.inj hs
    exact ⟨evs, held, h.fifo, h.trace, h.ring, h.pc⟩
  | serve =>
    unfold step at hs
    dsimp only at hs
    split at hs
    · obtain rfl := Option.some.inj hs
      exact serve_inv soc h _ _ _
    · cases hs
  | exit =>
    unfold step at hs
    dsimp only at hs
    split_ifs at hs
    obtain rfl := Option.some.inj hs
    exact ⟨evs, held, h.fifo, h.trace, h.ring, h.pc⟩
  | call sz =>
    unfold step at hs
    dsimp only at hs
    split at hs
    · obtain rfl := Option.some.inj hs
      exact ⟨evs, held, h.fifo, h.trace, h.ring, trivial⟩
    · cases hs
  | recv =>
    unfold step at hs
    dsimp only at hs
    split_ifs at hs
    exact recv_inv h hs
  | other e =>
    unfold step at hs
    dsimp only at hs
    split at hs
    · obtain rfl := Option.some.inj hs
      exact ⟨evs, held, h.fifo, h.trace, h.ring, h.pc⟩
    · cases hs

/-! ### The run -/

/-- The datagrams accepted into the ring, in the order of their callbacks. -/
def acceptedOf (tr : List Obs) : List (List UInt8) :=
  tr.filterMap fun
    | .accepted d => some d
    | _ => none

/-- The datagrams returned by the calls, each with its call's buffer size. -/
def returnedOf (tr : List Obs) : List (ℕ × List UInt8) :=
  tr.filterMap fun
    | .returned sz out => some (sz, out)
    | _ => none

theorem acceptedOf_eq {tr : List Obs} {evs : List (FifoEv (List UInt8))}
    (h : List.Forall₂ Matches tr evs) : acceptedOf tr = accepted evs := by
  induction h with
  | nil => rfl
  | cons hm _ ih => cases hm <;> simpa [acceptedOf, accepted] using ih

theorem returnedOf_popped {tr : List Obs} {evs : List (FifoEv (List UInt8))}
    (h : List.Forall₂ Matches tr evs) :
    List.Forall₂ (fun d r => r.2 = (d.take dtlsMaxDgram).take r.1) (popped evs) (returnedOf tr) := by
  induction h with
  | nil => exact .nil
  | cons hm _ ih =>
    cases hm with
    | returned sz d => exact .cons rfl ih
    | accepted d => exact ih
    | dropped d => exact ih
    | wantRead => exact ih

/-- **Interrupt-driven receive is a bounded FIFO.** In every run, from an empty
ring and whatever the MAC holds: the trace is a history of the queue of
capacity seven (a callback is dropped exactly when seven datagrams are held, a
call finds nothing exactly when none is); the datagrams returned are the first
accepted ones, in order, each its callback's bytes cut to 1536 and to the
call's buffer; and the ring holds the other accepted ones, in order. -/
theorem rx_recv_refines_fifo (n : Node) (queue : List (ℕ × ℕ)) (sched : List Label) (s : State)
    (h : run (step soc) (start n queue) sched = some s) :
    (∃ evs, FifoRun 7 evs ((acceptedOf s.trace).drop (returnedOf s.trace).length) ∧
      List.Forall₂ Matches s.trace evs) ∧
    List.Forall₂ (fun d r => r.2 = (d.take dtlsMaxDgram).take r.1)
      ((acceptedOf s.trace).take (returnedOf s.trace).length) (returnedOf s.trace) ∧
    s.node.ring.contents =
      ((acceptedOf s.trace).drop (returnedOf s.trace).length).map (List.take dtlsMaxDgram) := by
  obtain ⟨evs, held, hi⟩ := run_invariant (step soc) (I := fun s => ∃ evs held, Inv s evs held)
    (fun s l t hs h => step_inv soc h hs) ⟨[], [], start_inv n queue⟩ h
  have hret := returnedOf_popped hi.trace
  have hacc : acceptedOf s.trace = popped evs ++ held := by
    rw [acceptedOf_eq hi.trace, hi.fifo.accepted_eq]
  have hlen : (returnedOf s.trace).length = (popped evs).length := hret.length_eq.symm
  rw [hacc, hlen, List.take_left, List.drop_left]
  exact ⟨⟨evs, hi.fifo, hi.trace⟩, hret, hi.ring⟩

/-- A frame of the minimum length to the client, with three bytes of payload. -/
def helloFrame (a b c : UInt8) : List UInt8 :=
  [2, 0, 0, 0, 0, 1, 0x10, 0xe2, 0xd5, 0, 0, 1, 8, 0,
    0x45, 0, 0, 31, 0, 0, 0x40, 0, 64, 0x11, 0, 0, 192, 168, 1, 100, 192, 168, 1, 50,
    0x2b, 0x67, 0x15, 0xb3, 0, 11, 0, 0, a, b, c] ++ List.replicate 15 0

/-- Two calls, each cut by the interrupt: the first finds nothing, and the
second, interrupted in its `memcpy`, returns the first of two datagrams. -/
def interrupted : List Label :=
  [.call 1400, .arrive 0 (helloFrame 1 2 3), .recv, .enter, .serve, .exit, .call 1400, .recv, .recv, .recv,
    .arrive 1 (helloFrame 4 5 6), .enter, .serve, .exit, .recv, .recv, .recv]

theorem rx_recv_refines_fifo_interrupted :
    ∃ s, run (step Soc.sim) (start Node.simClient []) interrupted = some s ∧
      s.trace = [.wantRead, .accepted [1, 2, 3], .accepted [4, 5, 6], .returned 1400 [1, 2, 3]] ∧
      (∃ evs, FifoRun 7 evs [[4, 5, 6]] ∧ List.Forall₂ Matches s.trace evs) ∧
      s.node.ring.contents = [[4, 5, 6]] := by
  have hout : (run (step Soc.sim) (start Node.simClient []) interrupted).map State.trace =
      some [.wantRead, .accepted [1, 2, 3], .accepted [4, 5, 6], .returned 1400 [1, 2, 3]] := by
    decide +kernel
  obtain ⟨s, hs, htrace⟩ := Option.map_eq_some_iff.mp hout
  obtain ⟨hfifo, -, hring⟩ := rx_recv_refines_fifo Soc.sim Node.simClient [] interrupted s hs
  have hheld : (acceptedOf s.trace).drop (returnedOf s.trace).length = [[4, 5, 6]] := by
    rw [htrace]
    rfl
  rw [hheld] at hfifo hring
  exact ⟨s, hs, htrace, hfifo, hring⟩

end RxIrq
end PqcDtls
