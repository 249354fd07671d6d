/-
# The transmit slots and the MAC

The polled build, a sequence of `dtls_send_cb` calls against a MAC that takes
its time: started frames wait in a FIFO of `ETHMAC_TX_SLOTS` entries, their
bytes are read from the slots at any time before they complete, and ready means
room in the FIFO. A send fills its slot first and waits for ready afterwards.

`slots_kept`: if the FIFO has room whenever a send writes its first byte, no
statement writes into a slot the MAC holds, and the frames on the wire are, in
order and byte for byte, those of the calls that returned their size. Without
room it does: `stalled_mac_breaks_send`. The slots in the FIFO are always the
last ones before the transmit index (`Held`), so room means that the next slot
is not among them.
-/
import PqcDtls.DtlsIo
import PqcDtls.Lib.Run
import PqcDtls.SendFrame

namespace PqcDtls

open Lib

/-- The addresses a statement writes. -/
def Instr.writes (c : Call) : Instr → List ℕ
  | .copy i => [c.tx + i]
  | .destMac i => [c.eth.txBuffer + i]
  | .srcMac i => [c.eth.txBuffer + (6 + i)]
  | .etherType => bytes 12 2
  | .ipVersion => bytes 14 1
  | .ipDiffServices => bytes 15 1
  | .ipTotalLength => bytes 16 2
  | .ipIdentification => bytes 18 2
  | .ipFragmentOffset => bytes 20 2
  | .ipTtl => bytes 22 1
  | .ipProto => bytes 23 1
  | .ipChecksumZero => bytes 24 2
  | .ipSrc => bytes 26 4
  | .ipDst => bytes 30 4
  | .ipChecksumStore => bytes 24 2
  | .udpSrcPort => bytes 34 2
  | .udpDstPort => bytes 36 2
  | .udpLength => bytes 38 2
  | .udpChecksumZero => bytes 40 2
  | .padOdd => if c.length % 2 = 1 then bytes (42 + c.length) 1 else []
  | .udpChecksumStore => bytes 40 2
  | _ => []
where
  /-- `k` bytes of the transmit slot from `off` on. -/
  bytes (off k : ℕ) : List ℕ := (List.range k).map fun j => c.eth.txBuffer + off + j

namespace TxSlots

/-- A started frame, and the bytes of it that the MAC has read. -/
structure Pending where
  start : TxStart
  got : ℕ → Option UInt8

structure State where
  /-- The call under way, or the last one. -/
  call : Call
  /-- What is left of it; nothing between calls. -/
  todo : List Instr
  /-- The MAC's FIFO, oldest first. -/
  fifo : List Pending
  wire : List (List UInt8)
  /-- The start writes, each with the bytes of its slot then. -/
  built : List TxStart
  /-- The records of the calls that returned their size. -/
  sent : List (List UInt8)
  /-- The writes so far that went to a slot in the FIFO. -/
  hits : List ℕ

/-- Between calls, the MAC with nothing to send. -/
def start (n : Node) : State :=
  { call := Call.start n.eth (fun _ => 0) 0 n.gLocalPort n.gPeerPort, todo := [], fifo := [], wire := [],
    built := [], sent := [], hits := [] }

inductive Label where
  /-- wolfSSL sends a record. -/
  | call (buf : Mem) (sz : ℕ)
  /-- The next statement of the send. -/
  | main
  /-- The MAC reads byte `k` of frame `i` in its FIFO. -/
  | fetch (i k : ℕ)
  /-- The MAC has read its oldest frame and puts it on the wire. -/
  | complete

variable (soc : Soc)

/-- The address lies in the slot of the frame. -/
def Pending.Owns (p : Pending) (a : ℕ) : Prop :=
  soc.txAddr p.start.slot ≤ a ∧ a < soc.txAddr p.start.slot + 2048

instance (p : Pending) (a : ℕ) : Decidable (p.Owns soc a) := inferInstanceAs (Decidable (_ ∧ _))

def Pending.bytes (p : Pending) : List UInt8 := (List.range p.start.length).map fun k => (p.got k).getD 0

/-- The state after a statement. -/
def advance (s : State) (i : Instr) (is : List Instr) : State :=
  let c := i.exec soc s.call
  let new := c.eth.started.drop s.call.eth.started.length
  { s with
    call := c
    todo := is
    fifo := s.fifo ++ new.map (⟨·, fun _ => none⟩)
    built := s.built ++ new
    sent := if s.call.ret = none ∧ c.ret = some (c.sz : ℤ) then s.sent ++ [c.buf.read 0 c.sz] else s.sent
    hits := s.hits ++
      if s.call.ret = none then (i.writes s.call).filter fun a => s.fifo.any fun p => p.Owns soc a else [] }

/-- One step. The wait for ready is left only when the FIFO has room. -/
def step (s : State) : Label → Option State
  | .call buf sz =>
    if s.todo = [] ∧ 1 ≤ sz ∧ sz ≤ dtlsMaxDgram then
      some { s with call := Call.start s.call.eth buf sz s.call.srcPort s.call.dstPort, todo := sendProg sz }
    else none
  | .main =>
    match s.todo with
    | [] => none
    | i :: is =>
      if i = .awaitReady ∧ s.call.ret = none ∧ soc.txSlots ≤ s.fifo.length then none
      else some (advance soc s i is)
  | .fetch i k =>
    match s.fifo[i]? with
    | none => none
    | some p =>
      if k < p.start.length then
        let v := s.call.eth.mem (soc.txAddr p.start.slot + k)
        some { s with fifo := s.fifo.set i { p with got := Function.update p.got k (some v) } }
      else none
  | .complete =>
    match s.fifo with
    | [] => none
    | p :: ps =>
      if ∀ k < p.start.length, (p.got k).isSome then some { s with fifo := ps, wire := s.wire ++ [p.bytes] }
      else none

/-- The MAC has room when a send writes its first byte. -/
def Room (s : State) : Label → Prop
  | .main => s.todo.head? = some (.copy 0) → s.fifo.length < soc.txSlots
  | _ => True

instance (s : State) : (l : Label) → Decidable (Room soc s l)
  | .main => inferInstanceAs (Decidable (_ → _))
  | .call _ _ => isTrue trivial
  | .fetch _ _ => isTrue trivial
  | .complete => isTrue trivial

/-- The start write is of a frame that carries the record to the server. -/
def Carries (n : Node) (record : List UInt8) (fr : TxStart) : Prop :=
  IsUdpFrame fr.frame n.eth.cachedMac n.eth.myIp n.eth.cachedIp n.gLocalPort n.gPeerPort record

/-- The MAC sends what the calls have built. -/
structure Intact (n : Node) (s : State) : Prop where
  /-- The frames on the wire and in the FIFO are the frames started, in order. -/
  wire : s.wire ++ s.fifo.map (·.start.frame) = s.built.map (·.frame)
  /-- What the MAC has read of a frame in its FIFO are bytes of that frame. -/
  got : ∀ p ∈ s.fifo, ∀ k v, p.got k = some v → p.start.frame[k]? = some v
  /-- Each call that returned its size has built one frame; the call under way
  may have built one more. -/
  returned : ∃ frs new, s.built = frs ++ new ∧ List.Forall₂ (Carries n) s.sent frs ∧
    (new ≠ [] → new.length = 1 ∧ s.todo ≠ [])
  untouched : s.hits = []

/-! ### The writes of a statement -/

theorem mem_bytes {c : Call} {off k a : ℕ} :
    a ∈ Instr.writes.bytes c off k ↔ c.eth.txBuffer + off ≤ a ∧ a < c.eth.txBuffer + off + k := by
  simp only [Instr.writes.bytes, List.mem_map, List.mem_range]
  constructor
  · rintro ⟨j, hj, rfl⟩
    omega
  · rintro ⟨h1, h2⟩
    exact ⟨a - (c.eth.txBuffer + off), by omega, by omega⟩

/-- A statement changes the memory only where it writes. -/
theorem act_mem (c : Call) (i : Instr) {a : ℕ} (ha : a ∉ i.writes c) :
    (i.act soc c).eth.mem a = c.eth.mem a := by
  cases i with
  | padOdd =>
    simp only [Instr.writes, Instr.act] at ha ⊢
    split_ifs at ha ⊢
    · rw [mem_bytes] at ha
      exact Mem.set_ne _ _ (by omega)
    · rfl
  | returnIfZero | padTxLen =>
    simp only [Instr.act]
    split_ifs <;> rfl
  | _ =>
    simp only [Instr.writes, mem_bytes, List.mem_singleton] at ha
    simp only [Instr.act, Eth.put8, Eth.put16, Eth.put32, Eth.slotWrite, Eth.lengthWrite, Eth.startWrite,
      Eth.nextSlot, Eth.nextBuffer, Mem.store16, Mem.store32, Mem.set_apply] <;>
    split_ifs <;> first | rfl | omega

/-! ### A send before its start write -/

/-- The statements before the start write. -/
def frontProg (sz : ℕ) : List Instr := fillProg sz ++ (checkProg ++ buildProg.dropLast)

theorem sendProg_front (sz : ℕ) : sendProg sz = frontProg sz ++ .startWrite :: finishProg := by
  rw [sendProg_eq, buildProg_last]
  simp only [frontProg, List.append_assoc, List.cons_append, List.nil_append]

/-- Neither a copy nor one of the statements from the start write on. -/
def Builds : Instr → Bool
  | .copy _ => false
  | .startWrite => false
  | .nextSlot => false
  | .nextBuffer => false
  | .done => false
  | _ => true

theorem frontProg_kinds (sz : ℕ) {i : Instr} (hi : i ∈ frontProg sz) :
    i ≠ .startWrite ∧ i ≠ .nextSlot ∧ i ≠ .nextBuffer ∧ ∀ k, i = .copy k → k < sz := by
  have hrest : ∀ j ∈ checkProg ++ buildProg.dropLast, Builds j = true := by decide
  simp only [frontProg, fillProg, List.mem_append, List.mem_cons, List.mem_map, List.mem_range] at hi
  rcases hi with (rfl | ⟨j, hj, rfl⟩) | hi
  · simp
  · simpa using hj
  · have hb := hrest i (List.mem_append.mpr hi)
    have hne (j : Instr) (hj : Builds j = false) : i ≠ j := by
      rintro rfl
      rw [hj] at hb
      cases hb
    exact ⟨hne _ rfl, hne _ rfl, hne _ rfl, fun k hk => absurd hk (hne _ rfl)⟩

/-- What the statements before the start write keep: the slot, the buffer and
the start writes; and where the record goes, from the first of them on. -/
structure Front (e : Eth) (sz : ℕ) (pre : List Instr) (c : Call) : Prop where
  slot : c.eth.txSlot = e.txSlot
  buffer : c.eth.txBuffer = e.txBuffer
  started : c.eth.started = e.started
  length : c.length ≤ 2 * ((sz + 1) / 2)
  tx : pre ≠ [] → c.tx = e.txBuffer + 42

theorem act_length {c : Call} {k : ℕ} (h : c.length ≤ 2 * k) (i : Instr) : (i.act soc c).length ≤ 2 * k := by
  cases i with
  | padOdd =>
    simp only [Instr.act]
    split_ifs
    · show c.length + 1 ≤ 2 * k
      omega
    · exact h
  | returnIfZero | padTxLen =>
    simp only [Instr.act]
    split_ifs <;> exact h
  | _ => exact h

theorem act_tx {c : Call} {i : Instr} (hi : i ≠ .getTxBuffer) : (i.act soc c).tx = c.tx := by
  cases i <;> first
    | rfl
    | exact absurd rfl hi
    | (unfold Instr.act; dsimp only; split_ifs <;> rfl)

theorem front_facts (e : Eth) (buf : Mem) (sz : ℕ) (sp dp : UInt16) : ∀ (pre post : List Instr),
    frontProg sz = pre ++ post → Front e sz pre (execAll soc (Call.start e buf sz sp dp) pre) := by
  intro pre
  induction pre using List.reverseRecOn with
  | nil =>
    intro post _
    exact ⟨rfl, rfl, rfl, by show sz ≤ _; omega, by simp⟩
  | append_singleton pre i ih =>
    intro post hp
    have hp' : frontProg sz = pre ++ (i :: post) := by rw [hp]; simp
    have hf := ih (i :: post) hp'
    obtain ⟨k1, k2, k3, -⟩ := frontProg_kinds sz (i := i) (by rw [hp']; simp)
    rw [execAll_append]
    set c := execAll soc (Call.start e buf sz sp dp) pre with hc
    show Front e sz (pre ++ [i]) (i.exec soc c)
    unfold Instr.exec
    split_ifs with hret
    · -- a call that has returned has taken the buffer before
      refine ⟨hf.slot, hf.buffer, hf.started, hf.length, fun _ => hf.tx ?_⟩
      rintro rfl
      cases hret
    · refine ⟨(act_txSlot soc c k2).trans hf.slot, (act_txBuffer soc c k3).trans hf.buffer,
        (act_started soc c k1).trans hf.started, act_length soc hf.length i, fun _ => ?_⟩
      by_cases hi : i = .getTxBuffer
      · subst hi
        show c.eth.txBuffer + 42 = _
        rw [hf.buffer]
      · rw [act_tx soc hi]
        refine hf.tx ?_
        rintro rfl
        rw [frontProg, fillProg, List.cons_append, List.nil_append, List.cons.injEq] at hp'
        exact hi hp'.1.symm

/-- Before its start write a send writes inside its slot. -/
theorem writes_inside {e : Eth} {sz : ℕ} {pre : List Instr} {c : Call} (hf : Front e sz pre c)
    (hsz : sz ≤ 1536) (hpre : pre ≠ []) {i : Instr} (hi : i ∈ frontProg sz) {a : ℕ} (ha : a ∈ i.writes c) :
    e.txBuffer ≤ a ∧ a < e.txBuffer + 2048 := by
  have hlen := hf.length
  have hbuf := hf.buffer
  cases i with
  | copy k =>
    have hk := (frontProg_kinds sz hi).2.2.2 k rfl
    rw [Instr.writes, List.mem_singleton, hf.tx hpre] at ha
    omega
  | padOdd =>
    simp only [Instr.writes] at ha
    split_ifs at ha
    · rw [mem_bytes] at ha
      omega
    · cases ha
  | destMac k | srcMac k =>
    simp only [Instr.writes, List.mem_singleton] at ha
    omega
  | _ =>
    simp only [Instr.writes, mem_bytes, List.not_mem_nil] at ha
    all_goals omega

/-- A call that has not returned had not returned before. -/
theorem ret_of_append {c : Call} {is js : List Instr} (h : (execAll soc c (is ++ js)).ret = none) :
    (execAll soc c is).ret = none := by
  rw [execAll_append] at h
  by_contra hc
  have hsome : (execAll soc c is).ret.isSome := Option.isSome_iff_ne_none.mpr hc
  rw [execAll_returned soc hsome] at h
  exact hc h

/-- A stack in order, with the addresses of the node. -/
structure Ready (n : Node) (e : Eth) : Prop where
  ok : e.TxOk soc
  cachedMac : e.cachedMac = n.eth.cachedMac
  myIp : e.myIp = n.eth.myIp
  cachedIp : e.cachedIp = n.eth.cachedIp

/-- The send of a record, from a stack in order. -/
def sendOf (n : Node) (e : Eth) (buf : Mem) (sz : ℕ) : Call := Call.start e buf sz n.gLocalPort n.gPeerPort

variable {n : Node} {e : Eth} {buf : Mem} {sz : ℕ} {s : State}

/-- The start write of a send. -/
theorem start_spec (buf : Mem) (hm : ¬ n.eth.Unresolved) (hr : Ready soc n e) (hsz : sz ≤ 1536) :
    ∃ fr : TxStart,
      (execAll soc (sendOf n e buf sz) (frontProg sz ++ [.startWrite])).ret = none ∧
      (execAll soc (sendOf n e buf sz) (frontProg sz ++ [.startWrite])).eth.started = e.started ++ [fr] ∧
      fr.slot = e.txSlot ∧ fr.length ≤ 2048 ∧
      fr.frame = (execAll soc (sendOf n e buf sz) (frontProg sz ++ [.startWrite])).eth.mem.read
        (soc.txAddr e.txSlot) fr.length ∧
      Carries n (buf.read 0 sz) fr := by
  have hm' : ¬ e.Unresolved := by
    unfold Eth.Unresolved at hm ⊢
    rwa [hr.cachedMac]
  have hprog : frontProg sz ++ [.startWrite] = (fillProg sz ++ checkProg) ++ buildProg := by
    rw [frontProg, List.append_assoc, List.append_assoc, ← buildProg_last, List.append_assoc]
  obtain ⟨hfilled, hrun⟩ := filled_of_fill soc buf n.gLocalPort n.gPeerPort hr.ok hsz hm'
  obtain ⟨fr, heth, hslot, hlen, hframe, hudp, hret, -, -⟩ := start_frame soc hfilled
  rw [hprog, execAll_append]
  unfold sendOf
  generalize execAll soc (execAll soc (Call.start e buf sz n.gLocalPort n.gPeerPort)
    (fillProg sz ++ checkProg)) buildProg = c' at heth hframe hret ⊢
  rw [hrun] at heth hslot hframe hudp
  refine ⟨fr, hret, by rw [heth], hslot, by rw [hlen, Mem.length_read]; omega, hframe, ?_⟩
  rw [Carries, ← hr.cachedMac, ← hr.myIp, ← hr.cachedIp]
  exact hudp

/-! ### What the MAC holds -/

/-- The FIFO holds the last slots before `next`, unchanged since their start
writes, and the frames on the wire and in the FIFO are those started. -/
structure Held (s : State) (next : ℕ) : Prop where
  slots : ∃ base, (∀ j p, s.fifo[j]? = some p → p.start.slot = (base + j) % soc.txSlots) ∧
    (base + s.fifo.length) % soc.txSlots = next
  length : ∀ p ∈ s.fifo, p.start.length ≤ 2048
  mem : ∀ p ∈ s.fifo, s.call.eth.mem.read (soc.txAddr p.start.slot) p.start.length = p.start.frame
  got : ∀ p ∈ s.fifo, ∀ k v, p.got k = some v → p.start.frame[k]? = some v
  wire : s.wire ++ s.fifo.map (·.start.frame) = s.built.map (·.frame)
  hits : s.hits = []

/-- With room in the FIFO the next slot is not in it. -/
theorem Held.slot_ne {next : ℕ} (h : Held soc s next) (hroom : s.fifo.length < soc.txSlots) :
    ∀ p ∈ s.fifo, p.start.slot ≠ next := by
  intro p hp hslot
  obtain ⟨base, hslots, hnext⟩ := h.slots
  obtain ⟨j, hj⟩ := List.getElem?_of_mem hp
  have hjlt : j < s.fifo.length := (List.getElem?_eq_some_iff.mp hj).1
  rw [hslots j p hj, ← hnext] at hslot
  -- two indices less than a round apart
  have hmod : base + j ≡ base + s.fifo.length [MOD soc.txSlots] := hslot
  have hj' : j ≡ s.fifo.length [MOD soc.txSlots] := Nat.ModEq.add_left_cancel' base hmod
  have : j = s.fifo.length := Nat.ModEq.eq_of_lt_of_lt hj' (by omega) hroom
  omega

/-- Slots are disjoint. -/
theorem not_owns {p : Pending} {slot a : ℕ} (hne : p.start.slot ≠ slot)
    (ha : soc.txAddr slot ≤ a ∧ a < soc.txAddr slot + 2048) : ¬ p.Owns soc a := by
  unfold Pending.Owns
  unfold Soc.txAddr at ha ⊢
  omega

/-- The MAC has read a byte of frame `p`, which is now `q`. -/
theorem Held.fetch {next i : ℕ} {p q : Pending} (h : Held soc s next) (hp : s.fifo[i]? = some p)
    (hq : q.start = p.start) (hgot : ∀ k v, q.got k = some v → p.start.frame[k]? = some v) :
    Held soc { s with fifo := s.fifo.set i q } next := by
  obtain ⟨base, hslots, hnext⟩ := h.slots
  have hmem : p ∈ s.fifo := List.mem_of_getElem? hp
  refine ⟨⟨base, ?_, by rw [← hnext]; simp⟩, ?_, ?_, ?_, ?_, h.hits⟩
  · intro j r hr
    rw [List.getElem?_set] at hr
    split_ifs at hr with hij
    · obtain rfl := Option.some.inj hr
      rw [hq]
      exact hslots j p (hij ▸ hp)
    · exact hslots j r hr
  · intro r hr
    rcases List.mem_or_eq_of_mem_set hr with hr | rfl
    · exact h.length r hr
    · rw [hq]
      exact h.length p hmem
  · intro r hr
    rcases List.mem_or_eq_of_mem_set hr with hr | rfl
    · exact h.mem r hr
    · rw [hq]
      exact h.mem p hmem
  · intro r hr k v hv
    rcases List.mem_or_eq_of_mem_set hr with hr | rfl
    · exact h.got r hr k v hv
    · rw [hq]
      exact hgot k v hv
  · have hset : (s.fifo.map (·.start.frame)).set i q.start.frame = s.fifo.map (·.start.frame) := by
      apply List.ext_getElem?
      intro j
      by_cases hij : i = j
      · subst hij
        rw [List.getElem?_set_self (by simpa using (List.getElem?_eq_some_iff.mp hp).1), List.getElem?_map,
          hp, hq]
        rfl
      · rw [List.getElem?_set_ne hij]
    rw [← h.wire, List.map_set, hset]

/-- The oldest frame goes out as it was built. -/
theorem Held.complete {next : ℕ} {p : Pending} {ps : List Pending} (h : Held soc s next)
    (hfifo : s.fifo = p :: ps) (hall : ∀ k < p.start.length, (p.got k).isSome) :
    Held soc { s with fifo := ps, wire := s.wire ++ [p.bytes] } next := by
  obtain ⟨base, hslots, hnext⟩ := h.slots
  have hsub : ∀ q ∈ ps, q ∈ s.fifo := fun q hq => by rw [hfifo]; exact List.mem_cons_of_mem _ hq
  have hp : p ∈ s.fifo := by rw [hfifo]; simp
  have hbytes : p.bytes = p.start.frame := by
    have hlen : p.start.frame.length = p.start.length := by rw [← h.mem p hp, Mem.length_read]
    apply List.ext_getElem?
    intro k
    by_cases hk : k < p.start.length
    · obtain ⟨v, hv⟩ := Option.isSome_iff_exists.mp (hall k hk)
      rw [h.got p hp k v hv]
      simp [Pending.bytes, hk, hv]
    · rw [List.getElem?_eq_none (by rw [Pending.bytes, List.length_map, List.length_range]; omega),
        List.getElem?_eq_none (by omega)]
  refine ⟨⟨base + 1, ?_, ?_⟩, fun q hq => h.length q (hsub q hq), fun q hq => h.mem q (hsub q hq),
    fun q hq => h.got q (hsub q hq), ?_, h.hits⟩
  · intro j q hq
    have := hslots (j + 1) q (by rw [hfifo]; exact hq)
    rw [this, Nat.add_right_comm, Nat.add_assoc]
  · rw [← hnext, hfifo, List.length_cons, Nat.add_assoc, Nat.add_comm 1]
  · rw [← h.wire, hfifo, hbytes]
    simp

/-- A statement other than the start write, which writes no slot in the FIFO. -/
theorem Held.advance {next : ℕ} (h : Held soc s next) {i : Instr} (hi : i ≠ .startWrite)
    (hw : ∀ a ∈ i.writes s.call, ∀ p ∈ s.fifo, ¬ p.Owns soc a) (is : List Instr) :
    Held soc (advance soc s i is) next ∧ (advance soc s i is).built = s.built ∧
      (advance soc s i is).fifo = s.fifo := by
  have hstarted := exec_started soc s.call hi
  have hmem : ∀ a, a ∉ i.writes s.call → (i.exec soc s.call).eth.mem a = s.call.eth.mem a := by
    intro a ha
    unfold Instr.exec
    split_ifs
    · rfl
    · exact act_mem soc s.call i ha
  have hfifo : (TxSlots.advance soc s i is).fifo = s.fifo := by simp [TxSlots.advance, hstarted]
  have hbuilt : (TxSlots.advance soc s i is).built = s.built := by simp [TxSlots.advance, hstarted]
  have hhits : (TxSlots.advance soc s i is).hits = [] := by
    have hnone : ((i.writes s.call).filter fun a => s.fifo.any fun p => p.Owns soc a) = [] := by
      rw [List.filter_eq_nil_iff]
      intro a ha hany
      obtain ⟨p, hp, howns⟩ := List.any_eq_true.mp hany
      exact hw a ha p hp (of_decide_eq_true howns)
    simp [TxSlots.advance, h.hits, hnone]
  refine ⟨⟨by rw [hfifo]; exact h.slots, by rw [hfifo]; exact h.length, ?_, by rw [hfifo]; exact h.got, ?_,
    hhits⟩, hbuilt, hfifo⟩
  · rw [hfifo]
    intro p hp
    rw [← h.mem p hp]
    apply Mem.read_congr
    intro k hk
    refine hmem _ fun ha => hw _ ha p hp ?_
    have := h.length p hp
    exact ⟨by omega, by omega⟩
  · rw [hfifo, hbuilt]
    exact h.wire

/-- The start write of the next slot puts it into the FIFO. -/
theorem Held.start {next : ℕ} {t : State} {fr : TxStart} (h : Held soc s next) (hslot : fr.slot = next)
    (hlen : fr.length ≤ 2048) (hmem : t.call.eth.mem = s.call.eth.mem)
    (hframe : fr.frame = t.call.eth.mem.read (soc.txAddr next) fr.length)
    (hfifo : t.fifo = s.fifo ++ [⟨fr, fun _ => none⟩]) (hbuilt : t.built = s.built ++ [fr])
    (hwire : t.wire = s.wire) (hhits : t.hits = s.hits) : Held soc t ((next + 1) % soc.txSlots) := by
  obtain ⟨base, hslots, hbase⟩ := h.slots
  refine ⟨⟨base, ?_, ?_⟩, ?_, ?_, ?_, ?_, hhits.trans h.hits⟩
  · intro j p hp
    rw [hfifo, List.getElem?_append] at hp
    split_ifs at hp with hj
    · exact hslots j p hp
    · rw [List.getElem?_singleton] at hp
      split_ifs at hp with hj0
      obtain rfl := Option.some.inj hp
      rw [show j = s.fifo.length by omega, hbase]
      exact hslot
  · rw [hfifo, List.length_append, List.length_singleton, ← hbase, Nat.mod_add_mod, Nat.add_assoc]
  · rw [hfifo]
    intro p hp
    rcases List.mem_append.mp hp with hp | hp
    · exact h.length p hp
    · rw [List.mem_singleton.mp hp]
      exact hlen
  · rw [hfifo]
    intro p hp
    rcases List.mem_append.mp hp with hp | hp
    · rw [hmem]
      exact h.mem p hp
    · rw [List.mem_singleton.mp hp]
      show t.call.eth.mem.read (soc.txAddr fr.slot) fr.length = fr.frame
      rw [hframe, hslot]
  · rw [hfifo]
    intro p hp k v hv
    rcases List.mem_append.mp hp with hp | hp
    · exact h.got p hp k v hv
    · rw [List.mem_singleton.mp hp] at hv
      cases hv
  · rw [hwire, hfifo, hbuilt, List.map_append, List.map_append, ← h.wire, ← List.append_assoc]
    rfl

/-! ### The phases of a call -/

/-- Where the calls are, and what they have built. -/
inductive Phase (n : Node) (s : State) : Prop where
  | idle : s.todo = [] → Ready soc n s.call.eth → s.call.srcPort = n.gLocalPort →
      s.call.dstPort = n.gPeerPort → Held soc s s.call.eth.txSlot →
      List.Forall₂ (Carries n) s.sent s.built → Phase n s
  /-- The statements `pre` of a send are done, the start write is not. -/
  | front (e : Eth) (buf : Mem) (sz : ℕ) (pre post : List Instr) : Ready soc n e → 1 ≤ sz → sz ≤ 1536 →
      frontProg sz = pre ++ post → s.todo = post ++ .startWrite :: finishProg →
      s.call = execAll soc (sendOf n e buf sz) pre → Held soc s e.txSlot →
      (2 ≤ pre.length → s.fifo.length < soc.txSlots) → List.Forall₂ (Carries n) s.sent s.built → Phase n s
  /-- The start write is done, and of the rest the statements `pre`. -/
  | back (e : Eth) (buf : Mem) (sz : ℕ) (pre post : List Instr) (frs : List TxStart) (fr : TxStart) :
      Ready soc n e → sz ≤ 1536 → finishProg = pre ++ post → post ≠ [] → s.todo = post →
      s.call = execAll soc (sendOf n e buf sz) (frontProg sz ++ .startWrite :: pre) →
      Held soc s ((e.txSlot + 1) % soc.txSlots) → s.built = frs ++ [fr] →
      List.Forall₂ (Carries n) s.sent frs → Carries n (buf.read 0 sz) fr → Phase n s

/-- A new call. -/
theorem Phase.call {t : State} (h : Phase soc n s) (hs : step soc s (.call buf sz) = some t) :
    Phase soc n t := by
  unfold step at hs
  dsimp only at hs
  split_ifs at hs with hg
  obtain rfl := Option.some.inj hs
  obtain ⟨htodo, h1, h2⟩ := hg
  cases h with
  | idle _ hr hsp hdp hheld hsent =>
    refine .front s.call.eth buf sz [] (frontProg sz) hr h1 h2 rfl (sendProg_front sz) ?_
      ⟨hheld.slots, hheld.length, hheld.mem, hheld.got, hheld.wire, hheld.hits⟩ (by simp) hsent
    rw [hsp, hdp]
    rfl
  | front e buf sz pre post _ _ _ _ ht => simp [ht] at htodo
  | back e buf sz pre post frs fr _ _ _ hne ht => exact absurd (ht ▸ htodo) hne

/-- The MAC takes a step: the calls do not notice. -/
theorem Phase.mac {t : State} (h : Phase soc n s) (hcall : t.call = s.call) (htodo : t.todo = s.todo)
    (hbuilt : t.built = s.built) (hsent : t.sent = s.sent) (hlen : t.fifo.length ≤ s.fifo.length)
    (hheld : ∀ next, Held soc s next → Held soc t next) : Phase soc n t := by
  cases h with
  | idle h1 h2 h3 h4 h5 h6 =>
    exact .idle (htodo.trans h1) (hcall ▸ h2) (hcall ▸ h3) (hcall ▸ h4) (hcall ▸ hheld _ h5)
      (hsent ▸ hbuilt ▸ h6)
  | front e buf sz pre post h1 h2 h3 h4 h5 h6 h7 h8 h9 =>
    exact .front e buf sz pre post h1 h2 h3 h4 (htodo.trans h5) (hcall.trans h6) (hheld _ h7)
      (fun hp => lt_of_le_of_lt hlen (h8 hp)) (hsent ▸ hbuilt ▸ h9)
  | back e buf sz pre post frs fr h1 h2 h3 h4 h5 h6 h7 h8 h9 h10 =>
    exact .back e buf sz pre post frs fr h1 h2 h3 h4 (htodo.trans h5) (hcall.trans h6) (hheld _ h7)
      (hbuilt.trans h8) (hsent ▸ h9) h10

theorem Phase.fetch {t : State} {i k : ℕ} (h : Phase soc n s) (hs : step soc s (.fetch i k) = some t) :
    Phase soc n t := by
  unfold step at hs
  dsimp only at hs
  split at hs
  · cases hs
  · rename_i p hp
    split_ifs at hs with hk
    obtain rfl := Option.some.inj hs
    refine h.mac soc rfl rfl rfl rfl (by simp) fun next hheld => hheld.fetch soc hp rfl ?_
    have hmem : p ∈ s.fifo := List.mem_of_getElem? hp
    intro j v hv
    dsimp only at hv
    by_cases hj : j = k
    · subst hj
      rw [Function.update_self, Option.some.injEq] at hv
      rw [← hheld.mem p hmem, ← hv, List.getElem?_eq_getElem (by simpa using hk), Mem.getElem_read]
    · rw [Function.update_of_ne hj] at hv
      exact hheld.got p hmem j v hv

theorem Phase.complete {t : State} (h : Phase soc n s) (hs : step soc s .complete = some t) :
    Phase soc n t := by
  unfold step at hs
  dsimp only at hs
  split at hs
  · cases hs
  · rename_i p ps hfifo
    split_ifs at hs with hall
    obtain rfl := Option.some.inj hs
    exact h.mac soc rfl rfl rfl rfl (by simp [hfifo]) fun next hheld => hheld.complete soc hfifo hall

/-! ### A statement of the send -/

theorem execAll_concat (c : Call) (is : List Instr) (i : Instr) :
    execAll soc c (is ++ [i]) = i.exec soc (execAll soc c is) := execAll_append soc c is [i]

/-- The send goes on up to its start write. -/
theorem front_ret (hm : ¬ n.eth.Unresolved) (hr : Ready soc n e) (hsz : sz ≤ 1536) {pre post : List Instr}
    (hprog : frontProg sz = pre ++ post) : (execAll soc (sendOf n e buf sz) pre).ret = none := by
  obtain ⟨fr, hret, -⟩ := start_spec soc buf hm hr hsz
  rw [hprog, List.append_assoc] at hret
  exact ret_of_append soc hret

/-- A statement before the start write. -/
theorem front_step {pre post : List Instr} {i : Instr} (hm : ¬ n.eth.Unresolved) (hr : Ready soc n e)
    (h1 : 1 ≤ sz) (hsz : sz ≤ 1536) (hprog : frontProg sz = pre ++ i :: post)
    (hcall : s.call = execAll soc (sendOf n e buf sz) pre) (hheld : Held soc s e.txSlot)
    (hroom : 2 ≤ pre.length → s.fifo.length < soc.txSlots) (hsent : List.Forall₂ (Carries n) s.sent s.built)
    (hok : i = .copy 0 → s.fifo.length < soc.txSlots) :
    Phase soc n (advance soc s i (post ++ .startWrite :: finishProg)) := by
  have hprog' : frontProg sz = (pre ++ [i]) ++ post := by rw [hprog]; simp
  have hi : i ∈ frontProg sz := by rw [hprog]; simp
  have hnext : i.exec soc s.call = execAll soc (sendOf n e buf sz) (pre ++ [i]) := by
    rw [execAll_concat, hcall]
  have hret : (i.exec soc s.call).ret = none := by
    rw [hnext]
    exact front_ret soc hm hr hsz hprog'
  -- the first two statements, and that every later write finds room
  obtain ⟨k, rfl⟩ : ∃ k, sz = k + 1 := ⟨sz - 1, by omega⟩
  have hhead : ∃ rest, frontProg (k + 1) = .getTxBuffer :: .copy 0 :: rest := by
    rw [frontProg, fillProg, List.range_succ_eq_map]
    exact ⟨_, rfl⟩
  obtain ⟨rest, hrest⟩ := hhead
  have hroom' : pre ≠ [] → s.fifo.length < soc.txSlots := by
    intro hne
    by_cases htwo : 2 ≤ pre.length
    · exact hroom htwo
    · have hpos := List.length_pos_of_ne_nil hne
      obtain ⟨j, rfl⟩ := List.length_eq_one_iff.mp (show pre.length = 1 by omega)
      rw [hrest] at hprog
      simp only [List.cons_append, List.nil_append, List.cons.injEq] at hprog
      exact hok hprog.2.1.symm
  have hw : ∀ a ∈ i.writes s.call, ∀ p ∈ s.fifo, ¬ p.Owns soc a := by
    intro a ha p hp
    by_cases hne : pre = []
    · subst hne
      rw [hrest, List.nil_append, List.cons.injEq] at hprog
      rw [← hprog.1] at ha
      cases ha
    · have hf := front_facts soc e buf (k + 1) n.gLocalPort n.gPeerPort pre (i :: post) hprog
      rw [hcall] at ha
      have hin := writes_inside hf hsz hne hi ha
      rw [hr.ok.buffer] at hin
      exact not_owns soc (hheld.slot_ne soc (hroom' hne) p hp) hin
  obtain ⟨hheld', hbuilt, hfifo⟩ := hheld.advance soc (frontProg_kinds _ hi).1 hw
    (post ++ .startWrite :: finishProg)
  refine .front e buf (k + 1) (pre ++ [i]) post hr h1 hsz hprog' rfl hnext hheld' ?_ ?_
  · intro hp
    rw [hfifo]
    refine hroom' ?_
    rintro rfl
    simp at hp
  · rw [hbuilt]
    show List.Forall₂ (Carries n) (if s.call.ret = none ∧ (i.exec soc s.call).ret = _ then _ else _) _
    rw [if_neg (by simp [hret])]
    exact hsent

/-- The start write. -/
theorem start_step (hm : ¬ n.eth.Unresolved) (hr : Ready soc n e) (hsz : sz ≤ 1536)
    (hcall : s.call = execAll soc (sendOf n e buf sz) (frontProg sz)) (hheld : Held soc s e.txSlot)
    (hsent : List.Forall₂ (Carries n) s.sent s.built) :
    Phase soc n (advance soc s .startWrite finishProg) := by
  have hnext : Instr.startWrite.exec soc s.call =
      execAll soc (sendOf n e buf sz) (frontProg sz ++ [.startWrite]) := by
    rw [execAll_concat, hcall]
  obtain ⟨fr, hret, hstarted, hslot, hlen, hframe, hcarries⟩ := start_spec soc buf hm hr hsz
  rw [← hnext] at hret hstarted hframe
  have hfront := front_facts soc e buf sz n.gLocalPort n.gPeerPort (frontProg sz) [] (by simp)
  have hs0 : s.call.eth.started = e.started := by
    rw [hcall]
    exact hfront.started
  have hmem : (Instr.startWrite.exec soc s.call).eth.mem = s.call.eth.mem := by
    unfold Instr.exec
    split_ifs <;> rfl
  have hnew : (Instr.startWrite.exec soc s.call).eth.started.drop s.call.eth.started.length = [fr] := by
    rw [hstarted, hs0, List.drop_left]
  have hfifo : (advance soc s .startWrite finishProg).fifo = s.fifo ++ [⟨fr, fun _ => none⟩] := by
    simp [advance, hnew]
  have hbuilt : (advance soc s .startWrite finishProg).built = s.built ++ [fr] := by simp [advance, hnew]
  have hsent' : (advance soc s .startWrite finishProg).sent = s.sent := by
    simp only [advance, hret]
    rw [if_neg (by simp)]
  have hhits : (advance soc s .startWrite finishProg).hits = s.hits := by simp [advance, Instr.writes]
  exact .back e buf sz [] finishProg s.built fr hr hsz rfl (by decide) rfl hnext
    (hheld.start soc hslot hlen hmem hframe hfifo hbuilt rfl hhits) hbuilt (by rw [hsent']; exact hsent) hcarries

theorem finish_writes (c : Call) : ∀ i ∈ finishProg, i ≠ .startWrite ∧ i.writes c = [] := by
  simp [finishProg, Instr.writes]

/-- After its start write a send goes on to its return. -/
theorem back_ret (hm : ¬ n.eth.Unresolved) (hr : Ready soc n e) (hsz : sz ≤ 1536) {is : List Instr}
    (his : ∀ j ∈ is, j.Falls) :
    (execAll soc (sendOf n e buf sz) (frontProg sz ++ .startWrite :: is)).ret = none := by
  obtain ⟨-, hret, -⟩ := start_spec soc buf hm hr hsz
  rw [show frontProg sz ++ .startWrite :: is = (frontProg sz ++ [.startWrite]) ++ is by simp, execAll_append]
  generalize execAll soc (sendOf n e buf sz) (frontProg sz ++ [.startWrite]) = c at hret ⊢
  rw [execAll_eq_actAll soc is c hret his]
  exact actAll_ret soc his hret

/-- `return sz`: the call is over, its frame belongs to a record sent. -/
theorem done_step {frs : List TxStart} {fr : TxStart} (hm : ¬ n.eth.Unresolved) (hr : Ready soc n e)
    (hsz : sz ≤ 1536)
    (hcall : s.call = execAll soc (sendOf n e buf sz) (frontProg sz ++ [.startWrite, .nextSlot, .nextBuffer]))
    (hheld : Held soc (advance soc s .done []) ((e.txSlot + 1) % soc.txSlots))
    (hbuilt : (advance soc s .done []).built = frs ++ [fr]) (hsent : List.Forall₂ (Carries n) s.sent frs)
    (hfr : Carries n (buf.read 0 sz) fr) : Phase soc n (advance soc s .done []) := by
  have hret : s.call.ret = none := by
    rw [hcall]
    exact back_ret soc hm hr hsz (by simp [Instr.Falls])
  have hend : Instr.done.exec soc s.call = execAll soc (sendOf n e buf sz) (sendProg sz) := by
    rw [sendProg_front, hcall, ← execAll_concat, List.append_assoc]
    rfl
  have hm' : ¬ e.Unresolved := by
    unfold Eth.Unresolved at hm ⊢
    rwa [hr.cachedMac]
  obtain ⟨fr', m, hsz', heth, -⟩ := send_spec soc buf n.gLocalPort n.gPeerPort hr.ok hsz hm'
  obtain ⟨hsame, -⟩ := execAll_same soc (sendProg sz) (sendOf n e buf sz)
  unfold sendOf at hend hsame
  rw [← hend] at hsz' heth hsame
  have hsent' : (advance soc s .done []).sent = s.sent ++ [buf.read 0 sz] := by
    show (if _ then _ else _) = _
    rw [if_pos ⟨hret, by rw [hsz', hsame.sz]; rfl⟩, hsame.buf, hsame.sz]
    rfl
  have hslot : (Instr.done.exec soc s.call).eth.txSlot = (e.txSlot + 1) % soc.txSlots := by rw [heth]
  refine .idle rfl ⟨⟨?_, ?_⟩, ?_, hsame.myIp.trans hr.myIp, hsame.cachedIp.trans hr.cachedIp⟩ hsame.srcPort
    hsame.dstPort ?_ ?_
  · show (Instr.done.exec soc s.call).eth.txSlot < soc.txSlots
    rw [hslot]
    exact Nat.mod_lt _ soc.txPos
  · show (Instr.done.exec soc s.call).eth.txBuffer = soc.txAddr (Instr.done.exec soc s.call).eth.txSlot
    rw [heth]
  · show (Instr.done.exec soc s.call).eth.cachedMac = _
    rw [heth]
    exact hr.cachedMac
  · show Held soc (advance soc s .done []) (Instr.done.exec soc s.call).eth.txSlot
    rw [hslot]
    exact hheld
  · rw [hsent', hbuilt]
    exact List.rel_append hsent (.cons hfr .nil)

/-- A statement after the start write. -/
theorem back_step {pre post : List Instr} {i : Instr} {frs : List TxStart} {fr : TxStart}
    (hm : ¬ n.eth.Unresolved) (hr : Ready soc n e) (hsz : sz ≤ 1536) (hprog : finishProg = pre ++ i :: post)
    (hcall : s.call = execAll soc (sendOf n e buf sz) (frontProg sz ++ .startWrite :: pre))
    (hheld : Held soc s ((e.txSlot + 1) % soc.txSlots)) (hbuilt : s.built = frs ++ [fr])
    (hsent : List.Forall₂ (Carries n) s.sent frs) (hfr : Carries n (buf.read 0 sz) fr) :
    Phase soc n (advance soc s i post) := by
  have hi : i ∈ finishProg := by rw [hprog]; simp
  obtain ⟨hstart, hwrites⟩ := finish_writes s.call i hi
  obtain ⟨hheld', hbuilt', -⟩ := hheld.advance soc hstart (by simp [hwrites]) post
  rw [hbuilt] at hbuilt'
  by_cases hpost : post = []
  · subst hpost
    have hlast : pre ++ [i] = [.nextSlot, .nextBuffer] ++ [.done] := hprog.symm
    obtain ⟨rfl, hdone⟩ := List.append_inj' hlast rfl
    obtain rfl : i = .done := List.singleton_inj.mp hdone
    exact done_step soc hm hr hsz hcall hheld' hbuilt' hsent hfr
  · -- one of the two updates
    have hfalls : ∀ j ∈ pre ++ [i], j.Falls := by
      have hp : pre ++ [i] ++ post = [.nextSlot, .nextBuffer] ++ [.done] := by
        rw [List.append_assoc]
        exact hprog.symm
      have hlen := congrArg List.length hp
      have hpos := List.length_pos_iff.mpr hpost
      simp only [List.length_append, List.length_cons, List.length_nil] at hlen
      have hinit : pre ++ [i] <+: [.nextSlot, .nextBuffer] :=
        List.prefix_of_prefix_length_le ⟨post, hp⟩ ⟨_, rfl⟩ (by
          simp only [List.length_append, List.length_cons, List.length_nil]
          omega)
      intro j hj
      have hj' := hinit.subset hj
      simp only [List.mem_cons, List.not_mem_nil, or_false] at hj'
      rcases hj' with rfl | rfl <;> trivial
    have hnext : i.exec soc s.call =
        execAll soc (sendOf n e buf sz) (frontProg sz ++ .startWrite :: (pre ++ [i])) := by
      rw [← List.cons_append, ← List.append_assoc, execAll_concat, hcall]
    have hret : (i.exec soc s.call).ret = none := by
      rw [hnext]
      exact back_ret soc hm hr hsz hfalls
    refine .back e buf sz (pre ++ [i]) post frs fr hr hsz (by rw [hprog]; simp) hpost rfl hnext hheld' hbuilt' ?_
      hfr
    show List.Forall₂ (Carries n) (if _ then _ else _) _
    rw [if_neg (by simp [hret])]
    exact hsent

theorem Phase.main {t : State} (hm : ¬ n.eth.Unresolved) (h : Phase soc n s) (hok : Room soc s .main)
    (hs : step soc s .main = some t) : Phase soc n t := by
  obtain ⟨i, is, hi, rfl⟩ : ∃ i is, s.todo = i :: is ∧ t = advance soc s i is := by
    cases htodo : s.todo with
    | nil => simp [step, htodo] at hs
    | cons i is =>
      simp only [step, htodo] at hs
      split_ifs at hs
      exact ⟨i, is, rfl, (Option.some.inj hs).symm⟩
  cases h with
  | idle htodo => simp [htodo] at hi
  | front e buf sz pre post hr h1 hsz hprog htodo hcall hheld hroom hsent =>
    cases post with
    | nil =>
      rw [htodo, List.nil_append, List.cons.injEq] at hi
      obtain ⟨rfl, rfl⟩ := hi
      rw [List.append_nil] at hprog
      rw [← hprog] at hcall
      exact start_step soc hm hr hsz hcall hheld hsent
    | cons j post =>
      have hi' := hi
      rw [htodo, List.cons_append, List.cons.injEq] at hi
      obtain ⟨rfl, rfl⟩ := hi
      refine front_step soc hm hr h1 hsz hprog hcall hheld hroom hsent fun hj => hok ?_
      rw [hi', hj]
      rfl
  | back e buf sz pre post frs fr hr hsz hprog hne htodo hcall hheld hbuilt hsent hfr =>
    rw [htodo] at hi
    subst hi
    exact back_step soc hm hr hsz hprog hcall hheld hbuilt hsent hfr

/-! ### The run -/

theorem start_phase (hok : n.eth.TxOk soc) : Phase soc n (start n) := by
  refine .idle rfl ⟨hok, rfl, rfl, rfl⟩ rfl rfl ?_ .nil
  have hslot : (n.eth.txSlot + 0) % soc.txSlots = n.eth.txSlot := Nat.mod_eq_of_lt hok.slot_lt
  exact ⟨⟨n.eth.txSlot, by simp [start], hslot⟩, by simp [start], by simp [start], by simp [start], rfl, rfl⟩

theorem step_phase {t : State} (hm : ¬ n.eth.Unresolved) {l : Label} (h : Phase soc n s) (hok : Room soc s l)
    (hs : step soc s l = some t) : Phase soc n t := by
  cases l with
  | call buf sz => exact h.call soc hs
  | main => exact h.main soc hm hok hs
  | fetch i k => exact h.fetch soc hs
  | complete => exact h.complete soc hs

theorem Phase.intact (h : Phase soc n s) : Intact n s := by
  cases h with
  | idle htodo hr hsp hdp hheld hsent =>
    exact ⟨hheld.wire, hheld.got, ⟨s.built, [], by simp, hsent, by simp⟩, hheld.hits⟩
  | front e buf sz pre post hr h1 hsz hprog htodo hcall hheld hroom hsent =>
    exact ⟨hheld.wire, hheld.got, ⟨s.built, [], by simp, hsent, by simp⟩, hheld.hits⟩
  | back e buf sz pre post frs fr hr hsz hprog hne htodo hcall hheld hbuilt hsent hfr =>
    exact ⟨hheld.wire, hheld.got, ⟨frs, [fr], hbuilt, hsent, fun _ => ⟨rfl, htodo ▸ hne⟩⟩, hheld.hits⟩

/-- **A slot the MAC holds is not rewritten.** Whatever records are sent, and
whenever the MAC reads and completes its frames, as long as its FIFO has room
when a send writes its first byte: no statement writes into a slot in the FIFO,
and the frames on the wire are, in order and byte for byte, the first of those
built by the calls that returned their size. -/
theorem slots_kept (n : Node) (hok : n.eth.TxOk soc) (hm : ¬ n.eth.Unresolved) (sched : List Label) (s : State)
    (hrun : run (step soc) (start n) sched = some s)
    (hmeets : Meets (step soc) (Room soc) (start n) sched) : Intact n s := by
  have hphase : Phase soc n s := run_invariant_of_meets (step soc)
    (fun _ _ _ h hl hs => step_phase soc hm h hl hs) _ _ _ (start_phase soc hok) hmeets hrun
  exact hphase.intact soc

/-- A send of one byte `v`, run to its end. -/
def sendByte (v : UInt8) : List Label := .call (fun _ => v) 1 :: List.replicate (sendProg 1).length .main

/-- The MAC reads its oldest frame, of the minimum length, and sends it. -/
def drain : List Label := (List.range 60).map (.fetch 0) ++ [.complete]

/-- Three sends, with a frame gone before the third. -/
theorem slots_kept_drained : ∃ s,
    run (step Soc.sim) (start Node.simClient) (sendByte 7 ++ sendByte 8 ++ drain ++ sendByte 9) = some s ∧
      s.wire.length = 1 ∧ Intact Node.simClient s := by
  have hmap : (run (step Soc.sim) (start Node.simClient)
      (sendByte 7 ++ sendByte 8 ++ drain ++ sendByte 9)).map (fun s => s.wire.length) = some 1 := by
    decide +kernel
  obtain ⟨s, hs, hlen⟩ := Option.map_eq_some_iff.mp hmap
  exact ⟨s, hs, hlen, slots_kept Soc.sim _ (Node.client_txOk _ _) (by decide) _ s hs (by decide +kernel)⟩

/-- **A stalled MAC breaks a send.** With both slots waiting, the third call
copies its record over the first frame before it waits for ready, and the MAC
sends the first frame with the third record in it. -/
theorem stalled_mac_breaks_send :
    ¬ ∀ (n : Node), n.eth.TxOk Soc.sim → ¬ n.eth.Unresolved → ∀ (sched : List Label) (s : State),
      run (step Soc.sim) (start n) sched = some s → Intact n s := by
  intro hall
  have hmap : (run (step Soc.sim) (start Node.simClient)
      (sendByte 7 ++ sendByte 8 ++ [.call (fun _ => 9) 1, .main, .main] ++ drain)).map (fun s =>
        ((s.wire ++ s.fifo.map (·.start.frame)).map fun f => slice f 42 1,
          (s.built.map (·.frame)).map fun f => slice f 42 1, s.hits.length)) =
      some ([[9], [8]], [[7], [8]], 1) := by
    decide +kernel
  obtain ⟨s, hs, hout⟩ := Option.map_eq_some_iff.mp hmap
  have hintact := hall Node.simClient (Node.client_txOk _ _) (by decide) _ s hs
  rw [hintact.wire] at hout
  simp only [Prod.mk.injEq] at hout
  obtain ⟨h1, h2, -⟩ := hout
  rw [h1] at h2
  exact absurd h2 (by decide)

end TxSlots
end PqcDtls
