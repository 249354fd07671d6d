/-
# A send under interrupts

The `DTLS_RX_IRQ` build inside one call of `dtls_send_cb`: between any two
statements of the send, `ethmac_rx_isr` may serve any frames, and through them
answer from the same transmit slot or change the cached address. The MAC takes
a private copy of the slot at the start write.

`send_intact`: if no frame that is answered is served while the send holds the
transmit slot, and none that changes the cached address in the middle of its
copy, then a send that returns its size has handed over exactly one frame, and
that carries the record to an address the cache held. Neither can be dropped:
`arp_request_breaks_send` and `arp_reply_mixes_address`. A run is followed through
the stages of the send (`Stage`), and compared with an uninterrupted one from the
first header byte on. Whatever is served, a send leaves the transmit buffer in step
with its index for the next one (`txOk_of_run`).
-/
import PqcDtls.Lib.Run
import PqcDtls.Near

namespace PqcDtls
namespace TxIrq

open Lib

/-- A call of `dtls_send_cb` under way, with what is left to do. -/
structure State where
  call : Call
  ring : Ring
  todo : List Instr
  /-- The start writes of the send itself. -/
  mine : List TxStart
  /-- The addresses the ARP cache has held during the call. -/
  macs : List MacAddr

def State.node (s : State) : Node := ⟨s.call.eth, s.ring, s.call.srcPort, s.call.dstPort⟩

def start (n : Node) (buf : Mem) (sz : ℕ) : State :=
  { call := Call.start n.eth buf sz n.gLocalPort n.gPeerPort, ring := n.ring, todo := sendProg sz,
    mine := [], macs := [n.eth.cachedMac] }

inductive Label where
  /-- The next statement of the send. -/
  | main
  /-- The interrupt handler serves a frame from a slot. -/
  | frame (slot : ℕ) (f : List UInt8)

variable (soc : Soc)

/-- One step. What a statement adds to the start writes is the send's own. -/
def step (s : State) : Label → Option State
  | .main =>
    match s.todo with
    | [] => none
    | i :: is =>
      let c := i.exec soc s.call
      some { s with
        call := c
        todo := is
        mine := s.mine ++ c.eth.started.drop s.call.eth.started.length }
  | .frame slot f =>
    if slot < soc.rxSlots ∧ f.length ≤ 2048 then
      let n := (s.node.store slot f).service soc slot f.length
      some { s with
        call := { s.call with eth := n.eth }
        ring := n.ring
        macs := s.macs ++ [n.eth.cachedMac] }
    else none

/-! ### The frames that may come -/

/-- The send has the address of its slot and has not started it. -/
def Holding (s : State) : Prop :=
  Instr.getTxBuffer ∉ s.todo ∧ Instr.startWrite ∈ s.todo ∧ s.call.ret = none

/-- The send has copied some of the cached address, and not all of it. -/
def Copying (s : State) : Prop := ∃ i : Fin 6, i ≠ 0 ∧ s.todo.head? = some (.destMac i)

instance (s : State) : Decidable (Holding s) := inferInstanceAs (Decidable (_ ∧ _ ∧ _))
instance (s : State) : Decidable (Copying s) := inferInstanceAs (Decidable (∃ _, _))

/-- No frame is answered while the send holds its slot, and none changes the
cached address in the middle of its copy. -/
def Undisturbed (s : State) : Label → Prop
  | .main => True
  | .frame slot f =>
    (Holding s → ¬ ((s.node.store slot f).fetch slot f.length).eth.Replies) ∧
    (Copying s → ¬ ((s.node.store slot f).fetch slot f.length).eth.Recaches)

instance (s : State) : (l : Label) → Decidable (Undisturbed s l)
  | .main => isTrue trivial
  | .frame _ _ => inferInstanceAs (Decidable (_ ∧ _))

/-! ### The stages of a send -/

/-- The statements after the copy of the record. -/
def afterFill : List Instr := checkProg ++ (buildProg ++ finishProg)

theorem sendProg_fill (sz : ℕ) : sendProg sz = fillProg sz ++ afterFill := by
  simp only [sendProg_eq, afterFill, List.append_assoc]

/-- The call goes on, with its parameter and its slot in order. -/
structure Running (sz : ℕ) (c : Call) : Prop where
  ret : c.ret = none
  length : c.length = sz
  ok : c.eth.TxOk soc

/-- A frame of the send: one complete address, and the record as payload. -/
def Carries (n : Node) (buf : Mem) (sz : ℕ) (macs : List MacAddr) (fr : TxStart) : Prop :=
  ∃ mac ∈ macs, IsUdpFrame fr.frame mac n.eth.myIp n.eth.cachedIp n.gLocalPort n.gPeerPort (buf.read 0 sz)

/-- How far the send has come, and what it has done. -/
inductive Stage (n : Node) (buf : Mem) (sz : ℕ) (s : State) : Prop where
  | before : s.todo = sendProg sz → Running soc sz s.call → s.mine = [] → Stage n buf sz s
  /-- `k` bytes of the record are copied. -/
  | filling (k : ℕ) : k ≤ sz → s.todo = ((List.range sz).drop k).map .copy ++ afterFill →
      Running soc sz s.call → s.call.tx = s.call.eth.txBuffer + 42 →
      s.call.eth.mem.read (s.call.eth.txBuffer + 42) k = buf.read 0 k → s.mine = [] → Stage n buf sz s
  /-- Some of the tests of the cache are left. -/
  | testing (is : List (Fin 6)) :
      s.todo = is.map .testMac ++ (.returnIfZero :: .txLen :: .padTxLen :: (buildProg ++ finishProg)) →
      Running soc sz s.call → s.call.eth.mem.read (s.call.eth.txBuffer + 42) sz = buf.read 0 sz →
      s.mine = [] → Stage n buf sz s
  | sizing : s.todo = .txLen :: .padTxLen :: (buildProg ++ finishProg) → Running soc sz s.call →
      s.call.eth.mem.read (s.call.eth.txBuffer + 42) sz = buf.read 0 sz → s.mine = [] → Stage n buf sz s
  | padding : s.todo = .padTxLen :: (buildProg ++ finishProg) → Running soc sz s.call →
      s.call.eth.mem.read (s.call.eth.txBuffer + 42) sz = buf.read 0 sz → s.call.eth.txLen = sz + 42 →
      s.mine = [] → Stage n buf sz s
  /-- The statements `pre` have built on the filled slot of `c`. -/
  | building (c : Call) (pre post : List Instr) : buildProg = pre ++ post → post ≠ [] →
      s.todo = post ++ finishProg → Filled soc c (buf.read 0 sz) → Same c s.call →
      (execAll soc c pre).Near soc s.call →
      ((∃ i, Instr.destMac i ∈ post) → s.call.eth.cachedMac = c.eth.cachedMac) →
      c.eth.cachedMac ∈ s.macs → s.mine = [] → Stage n buf sz s
  | finishing (fr : TxStart) : (∀ i ∈ s.todo, i ∈ finishProg) → s.mine = [fr] →
      Carries n buf sz s.macs fr → Stage n buf sz s
  | returned : s.call.ret = some cbioErrWantWrite → Stage n buf sz s

/-- The invariant of a run. -/
structure Inv (n : Node) (buf : Mem) (sz : ℕ) (s : State) : Prop where
  same : Same (Call.start n.eth buf sz n.gLocalPort n.gPeerPort) s.call
  mac : s.call.eth.cachedMac ∈ s.macs
  stage : Stage soc n buf sz s

/-! ### The statements of the build -/

theorem startWrite_notMem : Instr.startWrite ∉ buildProg.dropLast := by decide

theorem getTxBuffer_notMem : Instr.getTxBuffer ∉ buildProg ++ finishProg := by decide

/-- A statement of the build that is not the last is no start write. -/
theorem ne_startWrite {pre post : List Instr} {i : Instr} (h : buildProg = pre ++ i :: post)
    (hp : post ≠ []) : i ≠ .startWrite := by
  rintro rfl
  apply startWrite_notMem
  rw [h, List.dropLast_append_of_ne_nil (by simp), List.dropLast_cons_of_ne_nil hp]
  simp

theorem eq_startWrite {pre : List Instr} {i : Instr} (h : buildProg = pre ++ [i]) :
    i = .startWrite ∧ pre = buildProg.dropLast := by
  have h' := buildProg_last
  rw [h] at h'
  obtain ⟨h1, h2⟩ := List.append_inj' h' rfl
  rw [h]
  exact ⟨List.singleton_inj.mp h2, by rw [List.dropLast_concat]⟩

/-- Inside the copy of the address the next statement copies a byte of it. -/
theorem copying_of_mem {pre post : List Instr} (h : buildProg = pre ++ post) (hpre : pre ≠ [])
    {i : Fin 6} (hi : Instr.destMac i ∈ post) : ∃ j : Fin 6, j ≠ 0 ∧ post.head? = some (.destMac j) := by
  have hpost : post = buildProg.drop pre.length := by rw [h, List.drop_left]
  have hlen : pre.length < 6 := by
    by_contra hc
    have hsub : post <:+ buildProg.drop 6 := by
      rw [hpost, show pre.length = 6 + (pre.length - 6) by omega, ← List.drop_drop]
      exact List.drop_suffix _ _
    have : ∀ j : Fin 6, Instr.destMac j ∉ buildProg.drop 6 := by decide
    exact this i (hsub.subset hi)
  have hpos : 0 < pre.length := List.length_pos_iff.mpr hpre
  rw [hpost]
  interval_cases pre.length
  · exact ⟨1, by decide, rfl⟩
  · exact ⟨2, by decide, rfl⟩
  · exact ⟨3, by decide, rfl⟩
  · exact ⟨4, by decide, rfl⟩
  · exact ⟨5, by decide, rfl⟩

theorem build_kinds : ∀ i ∈ buildProg.dropLast, i ≠ .startWrite ∧ i ≠ .nextBuffer := by decide

/-- The build keeps its slot, the start writes and the cached address until its
last statement. -/
theorem execAll_build : ∀ (pre : List Instr) {c : Call}, c.ret = none →
    (∀ i ∈ pre, i ∈ buildProg.dropLast) →
    (execAll soc c pre).ret = none ∧ (execAll soc c pre).eth.txBuffer = c.eth.txBuffer ∧
      (execAll soc c pre).eth.started = c.eth.started ∧
      (execAll soc c pre).eth.cachedMac = c.eth.cachedMac
  | [], _, hc, _ => ⟨hc, rfl, rfl, rfl⟩
  | i :: pre, c, hc, hmem => by
    have hi := hmem i (by simp)
    obtain ⟨h1, h2⟩ := build_kinds i hi
    have hfalls : i.Falls := buildProg_falls i (List.dropLast_subset _ hi)
    have hret : (i.act soc c).ret = none := (act_ret soc hfalls c).trans hc
    obtain ⟨r1, r2, r3, r4⟩ := execAll_build pre hret fun j hj => hmem j (by simp [hj])
    have hexec : execAll soc c (i :: pre) = execAll soc (i.act soc c) pre := by
      show execAll soc (i.exec soc c) pre = _
      rw [exec_running soc hc]
    rw [hexec, r2, r3, r4, act_txBuffer soc c h2, act_started soc c h1, (act_same soc c i).2]
    exact ⟨r1, rfl, rfl, rfl⟩

theorem mem_dropLast {pre post : List Instr} (h : buildProg = pre ++ post) (hp : post ≠ []) :
    ∀ i ∈ pre, i ∈ buildProg.dropLast := by
  intro i hi
  rw [h, List.dropLast_append_of_ne_nil hp]
  exact List.mem_append_left _ hi

/-- A send in the middle of its build has not returned. -/
theorem building_ret {c c' : Call} {pre post : List Instr} (hret : c.ret = none)
    (hprog : buildProg = pre ++ post) (hp : post ≠ []) (hnear : (execAll soc c pre).Near soc c') :
    c'.ret = none := by
  obtain ⟨e', rfl, -⟩ := hnear
  exact (execAll_build soc pre hret (mem_dropLast hprog hp)).1

/-! ### A statement of the send -/

/-- The state after a statement. -/
def advance (s : State) (i : Instr) (is : List Instr) : State :=
  { s with
    call := i.exec soc s.call
    todo := is
    mine := s.mine ++ (i.exec soc s.call).eth.started.drop s.call.eth.started.length }

theorem advance_mine {s : State} {i : Instr} (hi : i ≠ .startWrite) (is : List Instr) :
    (advance soc s i is).mine = s.mine := by
  simp [advance, exec_started soc s.call hi]

theorem Running.act {sz : ℕ} {c : Call} (h : Running soc sz c) {i : Instr} (hf : i.Falls)
    (hl : (i.act soc c).length = c.length) (hs : (i.act soc c).eth.txSlot = c.eth.txSlot)
    (hb : (i.act soc c).eth.txBuffer = c.eth.txBuffer) : Running soc sz (i.act soc c) :=
  ⟨(act_ret soc hf c).trans h.ret, hl.trans h.length, ⟨by rw [hs]; exact h.ok.slot_lt, by
    rw [hb, hs]; exact h.ok.buffer⟩⟩

variable {n : Node} {buf : Mem} {sz : ℕ} {s : State}

theorem stage_before (htodo : s.todo = sendProg sz) (hrun : Running soc sz s.call) (hmine : s.mine = [])
    {i : Instr} {is : List Instr} (hi : s.todo = i :: is) : Stage soc n buf sz (advance soc s i is) := by
  rw [htodo, sendProg_fill, fillProg, List.cons_append, List.cons.injEq] at hi
  obtain ⟨rfl, rfl⟩ := hi
  have hcall : (advance soc s .getTxBuffer ((List.range sz).map .copy ++ afterFill)).call =
      { s.call with tx := s.call.eth.txBuffer + 42 } := exec_running soc hrun.ret _
  refine .filling 0 (Nat.zero_le _) rfl ?_ ?_ rfl ((advance_mine soc (by decide) _).trans hmine)
  · rw [hcall]
    exact ⟨hrun.ret, hrun.length, hrun.ok⟩
  · rw [hcall]

theorem stage_testing (ts : List (Fin 6))
    (htodo : s.todo = ts.map .testMac ++ (.returnIfZero :: .txLen :: .padTxLen :: (buildProg ++ finishProg)))
    (hrun : Running soc sz s.call)
    (hpay : s.call.eth.mem.read (s.call.eth.txBuffer + 42) sz = buf.read 0 sz) (hmine : s.mine = [])
    {i : Instr} {is : List Instr} (hi : s.todo = i :: is) : Stage soc n buf sz (advance soc s i is) := by
  cases ts with
  | nil =>
    rw [htodo, List.map_nil, List.nil_append, List.cons.injEq] at hi
    obtain ⟨rfl, rfl⟩ := hi
    by_cases hz : s.call.macZero = true
    · refine .returned ?_
      show (Instr.returnIfZero.exec soc s.call).ret = _
      rw [exec_running soc hrun.ret, Instr.act, if_pos hz]
    · have hcall : Instr.returnIfZero.exec soc s.call = s.call := by
        rw [exec_running soc hrun.ret, Instr.act, if_neg hz]
      refine .sizing rfl ?_ ?_ ((advance_mine soc (by decide) _).trans hmine)
      · show Running soc sz (Instr.returnIfZero.exec soc s.call)
        rw [hcall]; exact hrun
      · show (Instr.returnIfZero.exec soc s.call).eth.mem.read
          ((Instr.returnIfZero.exec soc s.call).eth.txBuffer + 42) sz = _
        rw [hcall]; exact hpay
  | cons t ts =>
    rw [htodo, List.map_cons, List.cons_append, List.cons.injEq] at hi
    obtain ⟨rfl, rfl⟩ := hi
    have hcall : (Instr.testMac t).exec soc s.call = (Instr.testMac t).act soc s.call :=
      exec_running soc hrun.ret _
    refine .testing ts rfl ?_ ?_ ((advance_mine soc (by simp) _).trans hmine)
    · show Running soc sz ((Instr.testMac t).exec soc s.call)
      rw [hcall]
      exact hrun.act soc trivial rfl rfl rfl
    · show ((Instr.testMac t).exec soc s.call).eth.mem.read
        (((Instr.testMac t).exec soc s.call).eth.txBuffer + 42) sz = _
      rw [hcall]; exact hpay

theorem stage_filling {k : ℕ} (hk : k ≤ sz)
    (htodo : s.todo = ((List.range sz).drop k).map .copy ++ afterFill) (hrun : Running soc sz s.call)
    (htx : s.call.tx = s.call.eth.txBuffer + 42) (hbuf : s.call.buf = buf)
    (hpay : s.call.eth.mem.read (s.call.eth.txBuffer + 42) k = buf.read 0 k) (hmine : s.mine = [])
    {i : Instr} {is : List Instr} (hi : s.todo = i :: is) : Stage soc n buf sz (advance soc s i is) := by
  rcases Nat.lt_or_eq_of_le hk with hlt | rfl
  · rw [htodo, List.drop_eq_getElem_cons (by simpa using hlt), List.map_cons, List.cons_append,
      List.getElem_range, List.cons.injEq] at hi
    obtain ⟨rfl, rfl⟩ := hi
    have hcall : (Instr.copy k).exec soc s.call = (Instr.copy k).act soc s.call :=
      exec_running soc hrun.ret _
    refine .filling (k + 1) hlt rfl ?_ ?_ ?_ ((advance_mine soc (by simp) _).trans hmine)
    · show Running soc sz ((Instr.copy k).exec soc s.call)
      rw [hcall]
      exact hrun.act soc trivial rfl rfl rfl
    · show ((Instr.copy k).exec soc s.call).tx = ((Instr.copy k).exec soc s.call).eth.txBuffer + 42
      rw [hcall]; exact htx
    · show ((Instr.copy k).exec soc s.call).eth.mem.read
        (((Instr.copy k).exec soc s.call).eth.txBuffer + 42) (k + 1) = _
      rw [hcall]
      show (s.call.eth.mem.set (s.call.tx + k) (s.call.buf k)).read (s.call.eth.txBuffer + 42) (k + 1) = _
      rw [Mem.read_succ, Mem.read_succ, htx, Mem.set_same, hbuf, Nat.zero_add, ← hpay]
      congr 1
      exact Mem.read_congr fun j hj => Mem.set_ne _ _ (by omega)
  · rw [List.drop_of_length_le (by simp), List.map_nil, List.nil_append] at htodo
    exact stage_testing soc (List.finRange 6) htodo hrun hpay hmine hi

theorem stage_sizing (htodo : s.todo = .txLen :: .padTxLen :: (buildProg ++ finishProg))
    (hrun : Running soc sz s.call)
    (hpay : s.call.eth.mem.read (s.call.eth.txBuffer + 42) sz = buf.read 0 sz) (hmine : s.mine = [])
    {i : Instr} {is : List Instr} (hi : s.todo = i :: is) : Stage soc n buf sz (advance soc s i is) := by
  rw [htodo, List.cons.injEq] at hi
  obtain ⟨rfl, rfl⟩ := hi
  have hcall : (advance soc s .txLen (.padTxLen :: (buildProg ++ finishProg))).call =
      { s.call with eth := { s.call.eth with txLen := s.call.length + 42 } } :=
    exec_running soc hrun.ret _
  refine .padding rfl ?_ ?_ ?_ ((advance_mine soc (by decide) _).trans hmine)
  · rw [hcall]
    exact ⟨hrun.ret, hrun.length, ⟨hrun.ok.slot_lt, hrun.ok.buffer⟩⟩
  · rw [hcall]; exact hpay
  · rw [hcall]
    show s.call.length + 42 = sz + 42
    rw [hrun.length]

theorem stage_padding (htodo : s.todo = .padTxLen :: (buildProg ++ finishProg)) (hsz : sz ≤ 1536)
    (hrun : Running soc sz s.call)
    (hpay : s.call.eth.mem.read (s.call.eth.txBuffer + 42) sz = buf.read 0 sz)
    (hlen : s.call.eth.txLen = sz + 42) (hmac : s.call.eth.cachedMac ∈ s.macs) (hmine : s.mine = [])
    {i : Instr} {is : List Instr} (hi : s.todo = i :: is) : Stage soc n buf sz (advance soc s i is) := by
  rw [htodo, List.cons.injEq] at hi
  obtain ⟨rfl, rfl⟩ := hi
  have hcall : (advance soc s .padTxLen (buildProg ++ finishProg)).call =
      { s.call with eth := { s.call.eth with txLen := max 60 (sz + 42) } } := by
    show Instr.padTxLen.exec soc s.call = _
    rw [exec_running soc hrun.ret, Instr.act, hlen]
    split_ifs with h60
    · rw [show max 60 (sz + 42) = 60 by omega]
    · rw [show max 60 (sz + 42) = sz + 42 by omega, ← hlen]
  have hfilled : Filled soc (advance soc s .padTxLen (buildProg ++ finishProg)).call (buf.read 0 sz) := by
    rw [hcall]
    refine ⟨hrun.ret, by rw [Mem.length_read]; exact hrun.length, by rw [Mem.length_read]; exact hsz,
      by rw [Mem.length_read], ⟨hrun.ok.slot_lt, hrun.ok.buffer⟩, ?_⟩
    rw [Mem.length_read]
    exact hpay
  refine .building _ [] buildProg rfl (by decide) rfl hfilled (Same.refl _) (Call.Near.refl soc _)
    (fun _ => rfl) ?_ ((advance_mine soc (by decide) _).trans hmine)
  rw [hcall]
  exact hmac

/-- The transmit slot lies above the receive slots. -/
theorem txBuffer_ge {e : Eth} (h : e.TxOk soc) : soc.txAddr 0 ≤ e.txBuffer := by
  rw [h.buffer]
  exact txAddr_ge soc _

theorem Near.started_eq {c c' : Call} (h : c.Near soc c') : c'.eth.started = c.eth.started := by
  obtain ⟨e', rfl, m, a, b, d, p, mac, rfl, -⟩ := h
  rfl

theorem stage_building {c : Call} {pre post : List Instr} (hprog : buildProg = pre ++ post)
    (hne : post ≠ []) (htodo : s.todo = post ++ finishProg) (hfilled : Filled soc c (buf.read 0 sz))
    (hsame : Same c s.call) (hinv : Same (Call.start n.eth buf sz n.gLocalPort n.gPeerPort) s.call)
    (hnear : (execAll soc c pre).Near soc s.call)
    (hmac : (∃ i, Instr.destMac i ∈ post) → s.call.eth.cachedMac = c.eth.cachedMac)
    (hmem : c.eth.cachedMac ∈ s.macs) (hmine : s.mine = []) {i : Instr} {is : List Instr}
    (hi : s.todo = i :: is) : Stage soc n buf sz (advance soc s i is) := by
  obtain ⟨j, post, rfl⟩ := List.exists_cons_of_ne_nil hne
  rw [htodo, List.cons_append, List.cons.injEq] at hi
  obtain ⟨rfl, rfl⟩ := hi
  obtain ⟨hret, hbuf, hstarted, hcmac⟩ := execAll_build soc pre hfilled.running
    (mem_dropLast hprog hne)
  have hsret : s.call.ret = none := building_ret soc hfilled.running hprog hne hnear
  have hsstarted : s.call.eth.started = c.eth.started := by
    rw [Near.started_eq soc hnear, hstarted]
  have hexec : j.exec soc s.call = j.act soc s.call := exec_running soc hsret j
  -- the statement keeps the two runs in agreement
  have hreads : j.ReadsMac → s.call.eth.cachedMac = (execAll soc c pre).eth.cachedMac := by
    intro hr
    rw [hcmac]
    cases j with
    | destMac k => exact hmac ⟨k, by simp⟩
    | testMac k =>
      have hk : ∀ k, Instr.testMac k ∉ buildProg := by decide
      exact absurd (by rw [hprog]; simp) (hk k)
    | _ => exact absurd hr id
  have hnear' : (execAll soc c (pre ++ [j])).Near soc (j.exec soc s.call) := by
    have hl : execAll soc c (pre ++ [j]) = j.act soc (execAll soc c pre) := by
      rw [execAll_append]
      exact exec_running soc hret j
    rw [hl, hexec]
    exact near_act soc hnear (by rw [hbuf]; exact txBuffer_ge soc hfilled.ok) hreads
  by_cases hpost : post = []
  · subst hpost
    obtain ⟨rfl, -⟩ := eq_startWrite hprog
    obtain ⟨fr, heth, -, -, -, hframe, -⟩ := start_frame soc hfilled
    rw [← hprog] at hnear'
    have hfr : (Instr.startWrite.exec soc s.call).eth.started = c.eth.started ++ [fr] := by
      rw [Near.started_eq soc hnear', heth]
    refine .finishing fr (fun x hx => hx) ?_ ⟨c.eth.cachedMac, hmem, ?_⟩
    · show s.mine ++ (Instr.startWrite.exec soc s.call).eth.started.drop s.call.eth.started.length = [fr]
      rw [hmine, hfr, hsstarted, List.nil_append, List.drop_left]
    · have e1 : c.eth.myIp = n.eth.myIp := hsame.myIp.symm.trans hinv.myIp
      have e2 : c.eth.cachedIp = n.eth.cachedIp := hsame.cachedIp.symm.trans hinv.cachedIp
      have e3 : c.srcPort = n.gLocalPort := hsame.srcPort.symm.trans hinv.srcPort
      have e4 : c.dstPort = n.gPeerPort := hsame.dstPort.symm.trans hinv.dstPort
      rw [← e1, ← e2, ← e3, ← e4]
      exact hframe
  · refine .building c (pre ++ [j]) post (by rw [hprog]; simp) hpost rfl hfilled
      (hsame.trans (exec_same soc s.call j).1) hnear' ?_ hmem
      ((advance_mine soc (ne_startWrite hprog hpost) _).trans hmine)
    rintro ⟨k, hk⟩
    exact (exec_same soc s.call j).2.trans (hmac ⟨k, List.mem_cons_of_mem _ hk⟩)

theorem finish_kinds : ∀ i ∈ finishProg, i ≠ .startWrite := by decide

/-- **A statement keeps the invariant.** -/
theorem main_inv {t : State} (hsz : sz ≤ 1536) (h : Inv soc n buf sz s)
    (hs : step soc s .main = some t) : Inv soc n buf sz t := by
  obtain ⟨i, is, hi, rfl⟩ : ∃ i is, s.todo = i :: is ∧ t = advance soc s i is := by
    cases htodo : s.todo with
    | nil => simp [step, htodo] at hs
    | cons i is =>
      simp only [step, htodo, Option.some.injEq] at hs
      exact ⟨i, is, rfl, hs.symm⟩
  obtain ⟨hsame, hmac, hstage⟩ := h
  refine ⟨hsame.trans (exec_same soc s.call i).1, ?_, ?_⟩
  · show (i.exec soc s.call).eth.cachedMac ∈ s.macs
    rw [(exec_same soc s.call i).2]
    exact hmac
  · cases hstage with
    | before h1 h2 h3 => exact stage_before soc h1 h2 h3 hi
    | filling k h1 h2 h3 h4 h5 h6 => exact stage_filling soc h1 h2 h3 h4 hsame.buf h5 h6 hi
    | testing ts h1 h2 h3 h4 => exact stage_testing soc ts h1 h2 h3 h4 hi
    | sizing h1 h2 h3 h4 => exact stage_sizing soc h1 h2 h3 h4 hi
    | padding h1 h2 h3 h4 h5 => exact stage_padding soc h1 hsz h2 h3 h4 hmac h5 hi
    | building c pre post h1 h2 h3 h4 h5 h6 h7 h8 h9 =>
      exact stage_building soc h1 h2 h3 h4 h5 hsame h6 h7 h8 h9 hi
    | finishing fr h1 h2 h3 =>
      refine .finishing fr (fun x hx => h1 x (by rw [hi]; exact List.mem_cons_of_mem _ hx)) ?_ h3
      exact (advance_mine soc (finish_kinds i (h1 i (by rw [hi]; simp))) is).trans h2
    | returned h1 =>
      refine .returned ?_
      show (i.exec soc s.call).ret = _
      rw [Instr.exec, h1]
      exact h1

/-! ### A frame -/

theorem Running.near {c c' : Call} (h : Running soc sz c) (hn : c.Near soc c') : Running soc sz c' := by
  obtain ⟨e', rfl, m, a, b, d, p, mac, rfl, -⟩ := hn
  exact ⟨h.ret, h.length, ⟨h.ok.slot_lt, h.ok.buffer⟩⟩

theorem near_read {c c' : Call} (hn : c.Near soc c') (hok : c.eth.TxOk soc) (k : ℕ) :
    c'.eth.mem.read (c'.eth.txBuffer + 42) k = c.eth.mem.read (c.eth.txBuffer + 42) k := by
  have := txBuffer_ge soc hok
  obtain ⟨e', rfl, m, a, b, d, p, mac, rfl, hm⟩ := hn
  show m.read (c.eth.txBuffer + 42) k = c.eth.mem.read (c.eth.txBuffer + 42) k
  exact Mem.read_congr fun i _ => hm _ (by omega)

theorem filled_near {c c' : Call} {payload : List UInt8} (h : Filled soc c payload) (hn : c.Near soc c') :
    Filled soc c' payload := by
  have hread := near_read soc hn h.ok payload.length
  obtain ⟨e', rfl, m, a, b, d, p, mac, rfl, hm⟩ := hn
  exact ⟨h.running, h.length, h.small, h.txLen, ⟨h.ok.slot_lt, h.ok.buffer⟩, hread.trans h.payload⟩

theorem startWrite_mem {post : List Instr} {pre : List Instr} (h : buildProg = pre ++ post) (hp : post ≠ []) :
    Instr.startWrite ∈ post := by
  have hlast := buildProg_last
  rw [h] at hlast
  have hl : (pre ++ post).getLast? = some .startWrite := by
    rw [hlast, List.getLast?_concat]
  rw [List.getLast?_append_of_ne_nil _ hp] at hl
  exact List.mem_of_getLast? hl

/-- The send holds its slot from the first byte of the record to the start write. -/
theorem holding_of (is : List Instr) (htodo : s.todo = is ++ (buildProg ++ finishProg))
    (his : Instr.getTxBuffer ∉ is) (hret : s.call.ret = none) : Holding s := by
  refine ⟨?_, ?_, hret⟩
  · rw [htodo, List.mem_append]
    exact fun h => h.elim his getTxBuffer_notMem
  · rw [htodo, buildProg_last]
    simp

theorem holding_building {pre post : List Instr} (hprog : buildProg = pre ++ post) (hne : post ≠ [])
    (htodo : s.todo = post ++ finishProg) (hret : s.call.ret = none) : Holding s := by
  refine ⟨?_, ?_, hret⟩
  · rw [htodo]
    intro hmem
    apply getTxBuffer_notMem
    rw [hprog, List.append_assoc]
    exact List.mem_append_right _ hmem
  · rw [htodo]
    exact List.mem_append_left _ (startWrite_mem hprog hne)

/-- A frame served in the middle of the build, which is not answered. -/
theorem frame_building {t : State} {c : Call} {pre post : List Instr} (hprog : buildProg = pre ++ post)
    (hne : post ≠ []) (htodo : s.todo = post ++ finishProg) (hfilled : Filled soc c (buf.read 0 sz))
    (hsame : Same c s.call) (hnear : (execAll soc c pre).Near soc s.call)
    (hmac : (∃ i, Instr.destMac i ∈ post) → s.call.eth.cachedMac = c.eth.cachedMac)
    (hmem : c.eth.cachedMac ∈ s.macs) (hmine : t.mine = []) (ht : t.todo = s.todo)
    (hsame' : Same s.call t.call) (hnear' : s.call.Near soc t.call)
    (hkeep : Copying s → t.call.eth.cachedMac = s.call.eth.cachedMac) (hmacs : s.macs ⊆ t.macs)
    (hmac' : t.call.eth.cachedMac ∈ t.macs) : Stage soc n buf sz t := by
  by_cases hp : pre = []
  · -- nothing of the address is copied yet: the build starts from here
    subst hp
    exact .building t.call [] post hprog hne (ht.trans htodo) (filled_near soc (filled_near soc hfilled hnear) hnear')
      (Same.refl _) (Call.Near.refl soc _) (fun _ => rfl) hmac' hmine
  · refine .building c pre post hprog hne (ht.trans htodo) hfilled (hsame.trans hsame') (hnear.trans soc hnear') ?_
      (hmacs hmem) hmine
    rintro ⟨i, hi⟩
    have hcopy : Copying s := by
      obtain ⟨j, hj, hjd⟩ := copying_of_mem hprog hp hi
      refine ⟨j, hj, ?_⟩
      rw [htodo, List.head?_append, hjd]
      rfl
    exact (hkeep hcopy).trans (hmac ⟨i, hi⟩)

/-- **A frame keeps the invariant**, unless it disturbs the send. -/
theorem frame_inv {t : State} {slot : ℕ} {f : List UInt8} (h : Inv soc n buf sz s)
    (hok : Undisturbed s (.frame slot f)) (hs : step soc s (.frame slot f) = some t) :
    Inv soc n buf sz t := by
  unfold step at hs
  dsimp only at hs
  split_ifs at hs with hfit
  obtain rfl := Option.some.inj hs
  obtain ⟨hsame, hmac, hstage⟩ := h
  obtain ⟨hrep, hrec⟩ := hok
  set n' := (s.node.store slot f).service soc slot f.length with hn'
  have hkeeps := Eth.processFrame_keeps soc ((s.node.store slot f).fetch slot f.length).eth
  rw [← Node.service_eth] at hkeeps
  have hsame' : Same s.call { s.call with eth := n'.eth } :=
    ⟨rfl, rfl, rfl, rfl, hkeeps.myIp, hkeeps.cachedIp⟩
  -- a send that holds its slot sees at most another address in the cache
  have hquiet : Holding s → s.call.Near soc { s.call with eth := n'.eth } ∧
      (Copying s → n'.eth.cachedMac = s.call.eth.cachedMac) := by
    intro hh
    obtain ⟨h1, h2⟩ := service_near soc (n := s.node) hfit.1 hfit.2 (hrep hh)
    exact ⟨⟨n'.eth, rfl, h1⟩, fun hc => h2 (hrec hc)⟩
  refine ⟨hsame.trans hsame', by simp, ?_⟩
  cases hstage with
  | before h1 h2 h3 =>
    refine .before h1 ⟨h2.ret, h2.length, ?_⟩ h3
    show n'.eth.TxOk soc
    rw [hn', Node.service_eth]
    exact Eth.txOk_processFrame soc ⟨h2.ok.slot_lt, h2.ok.buffer⟩
  | filling k h1 h2 h3 h4 h5 h6 =>
    have hh : Holding s := by
      refine holding_of (((List.range sz).drop k).map .copy ++ checkProg) (by
        rw [h2, afterFill, List.append_assoc]) ?_ h3.ret
      rw [List.mem_append, List.mem_map]
      rintro (⟨x, -, hx⟩ | hx)
      · cases hx
      · exact absurd hx (by decide)
    obtain ⟨hnear, -⟩ := hquiet hh
    refine .filling k h1 h2 (h3.near soc hnear) ?_ ((near_read soc hnear h3.ok k).trans h5) h6
    obtain ⟨e', he, m, a, b, d, p, mac, rfl, -⟩ := hnear
    rw [he]
    exact h4
  | testing ts h1 h2 h3 h4 =>
    have hh : Holding s := by
      refine holding_of (ts.map .testMac ++ [.returnIfZero, .txLen, .padTxLen]) (by
        rw [h1, List.append_assoc]; rfl) ?_ h2.ret
      rw [List.mem_append, List.mem_map]
      rintro (⟨x, -, hx⟩ | hx)
      · cases hx
      · exact absurd hx (by decide)
    obtain ⟨hnear, -⟩ := hquiet hh
    exact .testing ts h1 (h2.near soc hnear) ((near_read soc hnear h2.ok sz).trans h3) h4
  | sizing h1 h2 h3 h4 =>
    have hh : Holding s := holding_of [.txLen, .padTxLen] h1 (by decide) h2.ret
    obtain ⟨hnear, -⟩ := hquiet hh
    exact .sizing h1 (h2.near soc hnear) ((near_read soc hnear h2.ok sz).trans h3) h4
  | padding h1 h2 h3 h4 h5 =>
    have hh : Holding s := holding_of [.padTxLen] h1 (by decide) h2.ret
    obtain ⟨hnear, -⟩ := hquiet hh
    refine .padding h1 (h2.near soc hnear) ((near_read soc hnear h2.ok sz).trans h3) ?_ h5
    obtain ⟨e', he, m, a, b, d, p, mac, rfl, -⟩ := hnear
    rw [he]
    exact h4
  | building c pre post h1 h2 h3 h4 h5 h6 h7 h8 h9 =>
    have hret : s.call.ret = none := building_ret soc h4.running h1 h2 h6
    obtain ⟨hnear, hkeep⟩ := hquiet (holding_building h1 h2 h3 hret)
    exact frame_building soc h1 h2 h3 h4 h5 h6 h7 h8 h9 rfl hsame' hnear hkeep
      (List.subset_append_left _ _) (by simp)
  | finishing fr h1 h2 h3 =>
    obtain ⟨mac, hm, hframe⟩ := h3
    exact .finishing fr h1 h2 ⟨mac, List.mem_append_left _ hm, hframe⟩
  | returned h1 => exact .returned h1

/-! ### The run -/

theorem start_inv (hok : n.eth.TxOk soc) : Inv soc n buf sz (start n buf sz) :=
  ⟨Same.refl _, by simp [start, Call.start], .before rfl ⟨rfl, rfl, hok⟩ rfl⟩

theorem step_inv {t : State} (hsz : sz ≤ 1536) {l : Label} (h : Inv soc n buf sz s)
    (hok : Undisturbed s l) (hs : step soc s l = some t) : Inv soc n buf sz t := by
  cases l with
  | main => exact main_inv soc hsz h hs
  | frame slot f => exact frame_inv soc h hok hs

/-- Only the last stage returns the size. -/
theorem Stage.carries (h : Stage soc n buf sz s) (hret : s.call.ret = some (sz : ℤ)) :
    ∃ fr, s.mine = [fr] ∧ Carries n buf sz s.macs fr := by
  have hrunning : ¬ Running soc sz s.call := fun hr => by simp [hr.ret] at hret
  cases h with
  | before _ hr => exact absurd hr hrunning
  | filling _ _ _ hr => exact absurd hr hrunning
  | testing _ _ hr => exact absurd hr hrunning
  | sizing _ hr => exact absurd hr hrunning
  | padding _ hr => exact absurd hr hrunning
  | building c pre post hprog hne _ hfilled _ hnear =>
    simp [building_ret soc hfilled.running hprog hne hnear] at hret
  | finishing fr _ hmine hfr => exact ⟨fr, hmine, hfr⟩
  | returned hr =>
    rw [hr, Option.some.injEq] at hret
    simp only [cbioErrWantWrite] at hret
    omega

/-- **An undisturbed send is intact.** Whatever frames the interrupt handler
serves between the statements of a send, as long as none is answered while the
send holds its slot and none changes the cached address in the middle of its
copy: if the send returns its size, it has handed exactly one frame to the MAC,
a UDP frame to one address that the cache held, with the record as payload and
lengths and checksums to match. -/
theorem send_intact (n : Node) (buf : Mem) (sz : ℕ) (hsz : sz ≤ dtlsMaxDgram) (hok : n.eth.TxOk soc)
    (sched : List Label) (s : State) (hrun : run (step soc) (start n buf sz) sched = some s)
    (hmeets : Meets (step soc) Undisturbed (start n buf sz) sched) (hret : s.call.ret = some (sz : ℤ)) :
    ∃ fr, s.mine = [fr] ∧ Carries n buf sz s.macs fr := by
  have hinv : Inv soc n buf sz s := run_invariant_of_meets (step soc)
    (fun _ _ _ h hl hs => step_inv soc hsz h hl hs) _ _ _ (start_inv soc hok) hmeets hrun
  exact hinv.stage.carries soc hret

/-! ### The transmit buffer after a send -/

/-- The transmit buffer is in step with its index, or the next statement makes it so. -/
structure InStep (sz : ℕ) (s : State) : Prop where
  rest : s.todo <:+ sendProg sz
  slot_lt : s.call.eth.txSlot < soc.txSlots
  buffer : s.call.eth.txBuffer = soc.txAddr s.call.eth.txSlot ∨
    (s.call.ret = none ∧ s.todo = [.nextBuffer, .done])

/-- Two statements move the transmit slot. -/
theorem exec_tx (c : Call) {i : Instr} (hi : i ≠ .nextSlot ∧ i ≠ .nextBuffer) :
    (i.exec soc c).eth.txSlot = c.eth.txSlot ∧ (i.exec soc c).eth.txBuffer = c.eth.txBuffer := by
  unfold Instr.exec
  split
  · exact ⟨rfl, rfl⟩
  cases i with
  | nextSlot => exact absurd rfl hi.1
  | nextBuffer => exact absurd rfl hi.2
  | returnIfZero | padTxLen | padOdd =>
    simp only [Instr.act]
    split_ifs <;> exact ⟨rfl, rfl⟩
  | _ => exact ⟨rfl, rfl⟩

/-- The index moves on just before the buffer does. -/
theorem after_nextSlot {is : List Instr} (h : (.nextSlot :: is) <:+ sendProg sz) : is = [.nextBuffer, .done] := by
  obtain ⟨pre, hpre⟩ := h
  have hsplit : sendProg sz = (fillProg sz ++ (checkProg ++ buildProg)) ++ .nextSlot :: [.nextBuffer, .done] := by
    rw [sendProg_fill, afterFill, finishProg]
    simp only [List.append_assoc]
  have hfront : Instr.nextSlot ∉ fillProg sz ++ (checkProg ++ buildProg) := by
    rw [List.mem_append, fillProg, List.mem_cons, List.mem_map]
    rintro ((h | ⟨x, -, h⟩) | h)
    · cases h
    · cases h
    · exact absurd h (by decide)
  rw [hsplit, List.append_eq_append_iff] at hpre
  rcases hpre with ⟨mid, hmid, hrest⟩ | ⟨mid, hmid, hrest⟩
  · cases mid with
    | nil => exact (List.cons.inj hrest).2
    | cons x mid =>
      obtain ⟨rfl, -⟩ := List.cons.inj hrest
      exact absurd (by rw [hmid]; simp) hfront
  · cases mid with
    | nil => exact (List.cons.inj hrest).2.symm
    | cons x mid =>
      obtain ⟨-, hrest⟩ := List.cons.inj hrest
      have hmem : Instr.nextSlot ∈ [Instr.nextBuffer, .done] := by
        rw [hrest]
        simp
      exact absurd hmem (by decide)

/-- A step keeps it, whatever frame is served. -/
theorem inStep_step {t : State} {l : Label} (h : InStep soc sz s) (hs : step soc s l = some t) : InStep soc sz t := by
  cases l with
  | frame slot f =>
    unfold step at hs
    dsimp only at hs
    split_ifs at hs with hfit
    obtain rfl := Option.some.inj hs
    have hserved := Eth.processFrame_tx soc ((s.node.store slot f).fetch slot f.length).eth
    rw [← Node.service_eth] at hserved
    rcases hserved with ⟨hslot, hbuffer⟩ | hok
    · refine ⟨h.rest, lt_of_eq_of_lt hslot h.slot_lt, h.buffer.imp_left fun hb => ?_⟩
      exact hbuffer.trans (hb.trans (congrArg soc.txAddr hslot.symm))
    · exact ⟨h.rest, hok.slot_lt, Or.inl hok.buffer⟩
  | main =>
    obtain ⟨i, is, hi, rfl⟩ : ∃ i is, s.todo = i :: is ∧ t = advance soc s i is := by
      cases htodo : s.todo with
      | nil => simp [step, htodo] at hs
      | cons i is =>
        simp only [step, htodo, Option.some.injEq] at hs
        exact ⟨i, is, rfl, hs.symm⟩
    have hrest : is <:+ sendProg sz := (List.suffix_cons i is).trans (hi ▸ h.rest)
    show InStep soc sz (advance soc s i is)
    cases hret : s.call.ret with
    | some v =>
      have hexec : i.exec soc s.call = s.call := if_pos (by rw [hret]; rfl)
      have hbuffer := h.buffer.resolve_right fun hb => by simp [hret] at hb
      exact ⟨hrest, by rw [advance, hexec]; exact h.slot_lt, Or.inl (by rw [advance, hexec]; exact hbuffer)⟩
    | none =>
      have hexec : i.exec soc s.call = i.act soc s.call := if_neg (by simp [hret])
      by_cases hslot : i = .nextSlot
      · subst hslot
        refine ⟨hrest, ?_, Or.inr ⟨?_, after_nextSlot (hi ▸ h.rest)⟩⟩
        · rw [advance, hexec]
          exact Nat.mod_lt _ soc.txPos
        · rw [advance, hexec]
          exact hret
      by_cases hbuf : i = .nextBuffer
      · subst hbuf
        refine ⟨hrest, ?_, Or.inl ?_⟩
        · rw [advance, hexec]
          exact h.slot_lt
        · rw [advance, hexec]
          rfl
      · obtain ⟨hsame, hsame'⟩ := exec_tx soc s.call ⟨hslot, hbuf⟩
        have hbuffer := h.buffer.resolve_right fun hb => hbuf (List.cons.inj (hi.symm.trans hb.2)).1
        refine ⟨hrest, lt_of_eq_of_lt hsame h.slot_lt, Or.inl ?_⟩
        exact hsame'.trans (hbuffer.trans (congrArg soc.txAddr hsame.symm))

/-- **A send leaves the transmit buffer in step with its index**, whatever frames are
served between its statements: the next send finds it so. -/
theorem txOk_of_run (n : Node) (buf : Mem) (sz : ℕ) (hok : n.eth.TxOk soc) (sched : List Label) (s : State)
    (hrun : run (step soc) (start n buf sz) sched = some s) (hdone : s.todo = [] ∨ s.call.ret ≠ none) :
    s.call.eth.TxOk soc := by
  have hstart : InStep soc sz (start n buf sz) := ⟨List.suffix_rfl, hok.slot_lt, Or.inl hok.buffer⟩
  have hin : InStep soc sz s := run_invariant_of_meets (step soc) (fun _ _ _ h _ hs => inStep_step soc h hs) _ _ _
    hstart (meets_true (step soc) _ _) hrun
  refine ⟨hin.slot_lt, hin.buffer.resolve_right ?_⟩
  rintro ⟨hret, htodo⟩
  rcases hdone with hnil | hne
  · simp [hnil] at htodo
  · exact hne hret

/-! ### What disturbs a send -/

/-- An ARP packet from the server for the client, as the server sends it: a
request (`opcode` 1) or a reply (2). -/
def arpFrame (opcode : UInt8) : List UInt8 :=
  [2, 0, 0, 0, 0, 1, 0x10, 0xe2, 0xd5, 0, 0, 1, 8, 6,
    0, 1, 8, 0, 6, 4, 0, opcode, 0x10, 0xe2, 0xd5, 0, 0, 2, 192, 168, 1, 100,
    0, 0, 0, 0, 0, 0, 192, 168, 1, 50] ++ List.replicate 18 0

/-- The reply with an address of another make. -/
def otherCard : List UInt8 := (arpFrame 2).take 22 ++ [0x52, 0x54, 0, 0x12, 0x34, 0x56] ++ (arpFrame 2).drop 28

/-- A send of one byte; the interrupt handler serves a frame after `k` of its
statements. -/
def servedAt (k : ℕ) (f : List UInt8) : List Label :=
  List.replicate k .main ++ [.frame 0 f] ++ List.replicate ((sendProg 1).length - k) .main

def oneByte : Mem := fun _ => 7

/-- An ARP reply with another address of the server, served between the copy of
the record and the headers, does no harm. -/
theorem send_intact_arpReply : ∃ s,
    run (step Soc.sim) (start Node.simClient oneByte 1) (servedAt 2 (arpFrame 2)) = some s ∧
      s.call.ret = some 1 ∧ ∃ fr, s.mine = [fr] ∧ Carries Node.simClient oneByte 1 s.macs fr := by
  have hmap : (run (step Soc.sim) (start Node.simClient oneByte 1) (servedAt 2 (arpFrame 2))).map
      (fun s => s.call.ret) = some (some 1) := by decide +kernel
  obtain ⟨s, hs, hret⟩ := Option.map_eq_some_iff.mp hmap
  exact ⟨s, hs, hret, send_intact Soc.sim _ _ 1 (by decide) (Node.client_txOk _ _) _ s hs
    (by decide +kernel) hret⟩

/-- **An ARP request in the middle of a send breaks it.** Served after the copy
of the record, it is answered from the same slot, the headers go to the next
slot, and the frame sent has what that slot held as its payload. -/
theorem arp_request_breaks_send :
    ¬ ∀ (n : Node) (buf : Mem) (sz : ℕ), 1 ≤ sz → sz ≤ dtlsMaxDgram → n.eth.TxOk Soc.sim →
      ¬ n.eth.Unresolved → ∀ (sched : List Label) (s : State),
      run (step Soc.sim) (start n buf sz) sched = some s → s.call.ret = some (sz : ℤ) →
      ∃ fr, s.mine = [fr] ∧ Carries n buf sz s.macs fr := by
  intro hall
  have hmap : (run (step Soc.sim) (start Node.simClient oneByte 1) (servedAt 2 (arpFrame 1))).map
      (fun s => (s.call.ret, s.mine.map fun fr => slice fr.frame 42 1)) = some (some 1, [[0]]) := by
    decide +kernel
  obtain ⟨s, hs, hout⟩ := Option.map_eq_some_iff.mp hmap
  rw [Prod.mk.injEq] at hout
  obtain ⟨fr, hmine, mac, -, hframe⟩ := hall Node.simClient oneByte 1 (by decide) (by decide)
    (Node.client_txOk _ _) (by decide) _ s hs hout.1
  have hpay : slice fr.frame 42 1 = [7] := hframe.payload
  rw [hmine] at hout
  simp [hpay] at hout

/-- **An ARP reply in the middle of the copy of the address mixes two.** Served after
the third of the six bytes, it makes the frame go to an address that the cache never
held. -/
theorem arp_reply_mixes_address : ∃ s,
    run (step Soc.sim) (start Node.simClient oneByte 1) (servedAt 14 otherCard) = some s ∧ s.call.ret = some 1 ∧
      s.mine.map (fun fr => slice fr.frame 0 6) = [[0x10, 0xe2, 0xd5, 0x12, 0x34, 0x56]] ∧
      ¬ ∃ fr, s.mine = [fr] ∧ Carries Node.simClient oneByte 1 s.macs fr := by
  have hmap : (run (step Soc.sim) (start Node.simClient oneByte 1) (servedAt 14 otherCard)).map
      (fun s => (s.call.ret, s.mine.map fun fr => slice fr.frame 0 6, s.macs.map List.ofFn)) =
        some (some 1, [[0x10, 0xe2, 0xd5, 0x12, 0x34, 0x56]],
          [[0x10, 0xe2, 0xd5, 0, 0, 1], [0x52, 0x54, 0, 0x12, 0x34, 0x56]]) := by
    decide +kernel
  obtain ⟨s, hs, hout⟩ := Option.map_eq_some_iff.mp hmap
  rw [Prod.mk.injEq, Prod.mk.injEq] at hout
  obtain ⟨hret, hmixed, hmacs⟩ := hout
  refine ⟨s, hs, hret, hmixed, ?_⟩
  rintro ⟨fr, hmine, mac, hmac, hframe⟩
  have hdest : List.ofFn mac = [0x10, 0xe2, 0xd5, 0x12, 0x34, 0x56] := by
    rw [hmine, List.map_singleton, hframe.destMac] at hmixed
    exact List.singleton_injective hmixed
  have hheld := List.mem_map_of_mem (f := List.ofFn) hmac
  rw [hmacs, hdest] at hheld
  exact absurd hheld (by decide)

end TxIrq
end PqcDtls
