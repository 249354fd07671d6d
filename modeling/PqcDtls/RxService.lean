/-
# Who serves a received frame

The `DTLS_RX_IRQ` build from the call of `dtls_io_enable_irq` on, to the end of
time: `main` enables the interrupt, works, and after its cleanup polls
`udp_service` for ever, while `ethmac_rx_isr` may start between any two of its
register accesses whenever a frame is pending. Both run the same `udp_service`
(`ServicePc`): test, read the slot, read the length, `process_frame`,
acknowledge. Of the MAC the system assumes a FIFO of frames whose head the slot
and length registers show, a pending bit for a FIFO that is not empty, and an
acknowledge that removes the head.

`frames_served_once`: as long as the interrupt is not taken inside the body of
a `udp_service` of `main`, and that body is not entered with an empty FIFO, the
accepted frames are served one after the other, each named by `rxbuffer` and
`rxlen` from the start of its processing to the acknowledge that removes it.
The poll after the cleanup needs this: `poll_serves_stale`.
-/
import PqcDtls.Lib.Run
import PqcDtls.Liteeth

namespace PqcDtls

namespace RxService

open Lib

/-- A received frame, as the MAC's registers show it. -/
structure RxFrame where
  slot : ℕ
  length : ℕ
  deriving DecidableEq

/-- How `rxbuffer` and `rxlen` name a frame. -/
def RxFrame.name (f : RxFrame) : ℕ × ℕ := (rxAddr f.slot, f.length)

/-- Where a context stands in `udp_service`. -/
inductive ServicePc where
  /-- Before the test of the pending bit. -/
  | check
  /-- Before `rxslot = ethmac_sram_writer_slot_read()`. -/
  | readSlot
  /-- Before `rxbuffer = ETHMAC_BASE + ETHMAC_SLOT_SIZE * rxslot`. -/
  | setBuffer
  /-- Before `rxlen = ethmac_sram_writer_length_read()`. -/
  | readLength
  /-- Before the call of `process_frame`. -/
  | process
  /-- In `process_frame`; the acknowledge follows. -/
  | inFrame
  deriving DecidableEq

/-- Where `main` stands. -/
inductive MainPc where
  /-- The three statements of `dtls_io_enable_irq`. -/
  | attach
  | evEnable
  | setMask
  /-- From there to the end of the cleanup: nothing touches the receive side. -/
  | work
  /-- `while (1) udp_service();` -/
  | poll (pc : ServicePc)
  deriving DecidableEq

/-- Where `ethmac_rx_isr` stands. -/
inductive IsrPc where
  /-- Before the test of its `while`. -/
  | loop
  | service (pc : ServicePc)
  deriving DecidableEq

inductive Event where
  /-- `process_frame` is called while the globals name this frame. -/
  | passed (name : ℕ × ℕ)
  /-- `process_frame` looks at the frame the globals name; it does not change
  them itself (`Eth.processFrame_keeps`). -/
  | looked (name : ℕ × ℕ)
  /-- An acknowledge removes a frame, if there is one. -/
  | acked (frame : Option RxFrame)
  deriving DecidableEq

structure State where
  /-- The frames the MAC has accepted, in order. -/
  accepted : List RxFrame
  /-- How many of them are acknowledged. -/
  removed : ℕ
  rxSlot : ℕ
  rxBuffer : ℕ
  rxLen : ℕ
  main : MainPc
  isr : Option IsrPc
  events : List Event

/-- What the MAC still holds. -/
def State.fifo (s : State) : List RxFrame := s.accepted.drop s.removed

def State.name (s : State) : ℕ × ℕ := (s.rxBuffer, s.rxLen)

/-- `main` calls `dtls_io_enable_irq`; the MAC may hold frames already. -/
def start (fs : List RxFrame) (rxSlot rxBuffer rxLen : ℕ) : State :=
  { accepted := fs, removed := 0, rxSlot, rxBuffer, rxLen, main := .attach, isr := none, events := [] }

inductive Label where
  | arrive (f : RxFrame)
  | interrupt
  /-- The next step of `main`. -/
  | main
  /-- The next step of the interrupt handler. -/
  | isr
  /-- The context that runs is in `process_frame` and looks at the frame. -/
  | look

/-- What the registers show while the FIFO is empty, by the frames removed. -/
abbrev Leftover := ℕ → RxFrame

variable (left : Leftover)

def State.shown (s : State) : RxFrame := s.fifo.head?.getD (left s.removed)

/-- One step of `udp_service`, and where it leads; `none` when it returns. -/
def serviceStep (s : State) : ServicePc → State × Option ServicePc
  | .check => (s, if s.fifo = [] then none else some .readSlot)
  | .readSlot => ({ s with rxSlot := (s.shown left).slot }, some .setBuffer)
  | .setBuffer => ({ s with rxBuffer := rxAddr s.rxSlot }, some .readLength)
  | .readLength => ({ s with rxLen := (s.shown left).length }, some .process)
  | .process => ({ s with events := s.events ++ [.passed s.name] }, some .inFrame)
  | .inFrame =>
    ({ s with
      removed := if s.fifo = [] then s.removed else s.removed + 1
      events := s.events ++ [.acked s.fifo.head?] }, none)

def mainStep (s : State) : State :=
  match s.main with
  | .attach => { s with main := .evEnable }
  | .evEnable => { s with main := .setMask }
  | .setMask => { s with main := .work }
  | .work => { s with main := .poll .check }
  | .poll pc =>
    let (t, next) := serviceStep left s pc
    { t with main := .poll (next.getD .check) }

def isrStep (s : State) : IsrPc → State
  | .loop => { s with isr := if s.fifo = [] then none else some (.service .check) }
  | .service pc =>
    let (t, next) := serviceStep left s pc
    { t with isr := some ((next.map .service).getD .loop) }

/-- Past `dtls_io_enable_irq` the interrupt can be taken. -/
def MainPc.Enabled : MainPc → Prop
  | .work => True
  | .poll _ => True
  | _ => False

instance : (pc : MainPc) → Decidable pc.Enabled
  | .work => isTrue trivial
  | .poll _ => isTrue trivial
  | .attach => isFalse id
  | .evEnable => isFalse id
  | .setMask => isFalse id

/-- The context that runs is in `process_frame`. -/
def State.inFrame (s : State) : Prop :=
  s.isr = some (.service .inFrame) ∨ s.isr = none ∧ s.main = .poll .inFrame

instance (s : State) : Decidable s.inFrame := inferInstanceAs (Decidable (_ ∨ _))

/-- One step. `main` stands still while the handler runs. -/
def step (s : State) : Label → Option State
  | .arrive f => some { s with accepted := s.accepted ++ [f] }
  | .interrupt =>
    if s.isr = none ∧ s.main.Enabled ∧ s.fifo ≠ [] then some { s with isr := some .loop } else none
  | .main => if s.isr = none then some (mainStep left s) else none
  | .isr => s.isr.map (isrStep left s)
  | .look => if s.inFrame then some { s with events := s.events ++ [.looked s.name] } else none

/-- Outside the body of a `udp_service` of `main`. -/
def MainPc.Outside : MainPc → Prop
  | .poll .check => True
  | .poll .readSlot => True
  | .poll _ => False
  | _ => True

instance : (pc : MainPc) → Decidable pc.Outside
  | .attach => isTrue trivial
  | .evEnable => isTrue trivial
  | .setMask => isTrue trivial
  | .work => isTrue trivial
  | .poll .check => isTrue trivial
  | .poll .readSlot => isTrue trivial
  | .poll .setBuffer => isFalse id
  | .poll .readLength => isFalse id
  | .poll .process => isFalse id
  | .poll .inFrame => isFalse id

/-- The interrupt comes while `main` is outside the body of its `udp_service`,
and `main` starts that body with a frame there. -/
def Exclusive (s : State) : Label → Prop
  | .interrupt => s.main.Outside
  | .main => s.main = .poll .readSlot → s.fifo ≠ []
  | _ => True

instance (s : State) : (l : Label) → Decidable (Exclusive s l)
  | .interrupt => inferInstanceAs (Decidable s.main.Outside)
  | .main => inferInstanceAs (Decidable (_ → _))
  | .arrive _ => isTrue trivial
  | .isr => isTrue trivial
  | .look => isTrue trivial

/-! ### Serving frames one after the other -/

/-- The processing of `f` so far: it was passed and looked at `k` times. -/
def serving (f : RxFrame) (k : ℕ) : List Event := .passed f.name :: List.replicate k (.looked f.name)

/-- The events that serve frames one after the other, each to its acknowledge. -/
inductive Served : List RxFrame → List Event → Prop where
  | nil : Served [] []
  | snoc {fs : List RxFrame} {evs : List Event} (f : RxFrame) (k : ℕ) : Served fs evs →
      Served (fs ++ [f]) (evs ++ serving f k ++ [.acked (some f)])

/-- The frames removed were served one after the other, and if one is in
`process_frame` now it is the next one. -/
def ServedOnce (s : State) : Prop :=
  ∃ evs now, s.events = evs ++ now ∧ Served (s.accepted.take s.removed) evs ∧
    (now = [] ∨ ∃ f k, s.fifo.head? = some f ∧ now = serving f k)

/-- The frames passed to `process_frame`, as the globals named them. -/
def passedOf (evs : List Event) : List (ℕ × ℕ) :=
  evs.filterMap fun
    | .passed name => some name
    | _ => none

theorem Served.passed {fs : List RxFrame} {evs : List Event} (h : Served fs evs) :
    passedOf evs = fs.map (·.name) := by
  induction h with
  | nil => rfl
  | snoc f k _ ih =>
    rw [passedOf, List.filterMap_append, List.filterMap_append, ← passedOf, ih, List.map_append]
    simp [serving]

theorem ServedOnce.passed {s : State} (h : ServedOnce s) : passedOf s.events <+: s.accepted.map (·.name) := by
  obtain ⟨evs, now, hevs, hserved, hnow⟩ := h
  have hsplit : s.accepted = s.accepted.take s.removed ++ s.fifo := (List.take_append_drop _ _).symm
  rw [hevs, passedOf, List.filterMap_append, ← passedOf, hserved.passed]
  rcases hnow with rfl | ⟨f, k, hf, rfl⟩
  · rw [List.filterMap_nil, List.append_nil]
    exact (List.take_prefix _ _).map _
  · obtain ⟨fs, hfs⟩ := List.head?_eq_some_iff.mp hf
    refine ⟨fs.map (·.name), ?_⟩
    nth_rewrite 2 [hsplit]
    rw [hfs, List.map_append, List.map_cons]
    simp [serving]

/-! ### What holds where -/

variable {s : State}

/-- No frame is in `process_frame`. -/
def Closed (s : State) : Prop := Served (s.accepted.take s.removed) s.events

/-- What holds where the context that runs stands in `udp_service`. -/
def Stands (s : State) : ServicePc → Prop
  | .check => Closed s
  | .readSlot => Closed s ∧ s.fifo ≠ []
  | .setBuffer => Closed s ∧ ∃ f, s.fifo.head? = some f ∧ s.rxSlot = f.slot
  | .readLength => Closed s ∧ ∃ f, s.fifo.head? = some f ∧ s.rxBuffer = rxAddr f.slot
  | .process => Closed s ∧ ∃ f, s.fifo.head? = some f ∧ s.name = f.name
  | .inFrame => ∃ f evs k, s.events = evs ++ serving f k ∧ Served (s.accepted.take s.removed) evs ∧
      s.fifo.head? = some f ∧ s.name = f.name

/-- `main` may be stopped before its read of the slot, and then finds what it finds. -/
def MainStands (s : State) : MainPc → Prop
  | .poll .readSlot => Closed s
  | .poll pc => Stands s pc
  | _ => Closed s

structure Inv (s : State) : Prop where
  removed : s.removed ≤ s.accepted.length
  stands : match s.isr with
    | none => MainStands s s.main
    | some .loop => Closed s ∧ s.main.Outside
    | some (.service pc) => Stands s pc ∧ s.main.Outside

theorem shown_eq {f : RxFrame} (h : s.fifo.head? = some f) : s.shown left = f := by
  rw [State.shown, h]
  rfl

theorem head?_exists (h : s.fifo ≠ []) : ∃ f, s.fifo.head? = some f :=
  Option.isSome_iff_exists.mp (by simpa [List.isSome_head?] using h)

/-- **A step of `udp_service`**, from where it stands to where it leads. -/
theorem service_stands {pc : ServicePc} (hr : s.removed ≤ s.accepted.length) (h : Stands s pc) :
    (serviceStep left s pc).1.removed ≤ (serviceStep left s pc).1.accepted.length ∧
    (serviceStep left s pc).1.main = s.main ∧
    match (serviceStep left s pc).2 with
    | none => Closed (serviceStep left s pc).1
    | some pc' => Stands (serviceStep left s pc).1 pc' := by
  cases pc with
  | check =>
    by_cases hf : s.fifo = []
    · simpa [serviceStep, hf] using ⟨hr, h⟩
    · simpa [serviceStep, hf] using ⟨hr, h, hf⟩
  | readSlot =>
    obtain ⟨hc, hf⟩ := h
    obtain ⟨f, hf⟩ := head?_exists hf
    exact ⟨hr, rfl, hc, f, hf, by rw [serviceStep, shown_eq left hf]⟩
  | setBuffer =>
    obtain ⟨hc, f, hf, hslot⟩ := h
    exact ⟨hr, rfl, hc, f, hf, by rw [serviceStep, hslot]⟩
  | readLength =>
    obtain ⟨hc, f, hf, hbuf⟩ := h
    refine ⟨hr, rfl, hc, f, hf, ?_⟩
    rw [serviceStep, shown_eq left hf]
    show (s.rxBuffer, f.length) = _
    rw [hbuf]
    rfl
  | process =>
    obtain ⟨hc, f, hf, hname⟩ := h
    refine ⟨hr, rfl, f, s.events, 0, ?_, hc, hf, hname⟩
    rw [serviceStep, hname]
    rfl
  | inFrame =>
    obtain ⟨f, evs, k, hevs, hserved, hf, hname⟩ := h
    obtain ⟨fs, hfs⟩ := List.head?_eq_some_iff.mp hf
    have hne : s.fifo ≠ [] := by simp [hfs]
    have hlt : s.removed < s.accepted.length := by
      by_contra hge
      exact hne (List.drop_of_length_le (by omega))
    have hget : s.accepted[s.removed]? = some f := by
      rw [← List.head?_drop]
      exact hf
    have hstep : serviceStep left s .inFrame =
        ({ s with removed := s.removed + 1, events := s.events ++ [.acked (some f)] }, none) := by
      simp only [serviceStep, hf, if_neg hne]
    rw [hstep]
    refine ⟨hlt, rfl, ?_⟩
    show Served (s.accepted.take (s.removed + 1)) (s.events ++ [.acked (some f)])
    rw [List.take_add_one, hget, hevs]
    exact hserved.snoc f k

/-! ### The other steps -/

/-- A frame accepted behind the others. -/
theorem stands_arrive (hr : s.removed ≤ s.accepted.length) (f : RxFrame) :
    (Closed s → Closed { s with accepted := s.accepted ++ [f] }) ∧
    ∀ pc, Stands s pc → Stands { s with accepted := s.accepted ++ [f] } pc := by
  have htake : (s.accepted ++ [f]).take s.removed = s.accepted.take s.removed :=
    List.take_append_of_le_length hr
  have hfifo : State.fifo { s with accepted := s.accepted ++ [f] } = s.fifo ++ [f] :=
    List.drop_append_of_le_length hr
  have hhead : ∀ g, s.fifo.head? = some g →
      (State.fifo { s with accepted := s.accepted ++ [f] }).head? = some g := by
    intro g hg
    rw [hfifo, List.head?_append, hg]
    rfl
  have hclosed : Closed s → Closed { s with accepted := s.accepted ++ [f] } := by
    intro h
    show Served ((s.accepted ++ [f]).take s.removed) s.events
    rw [htake]
    exact h
  refine ⟨hclosed, fun pc h => ?_⟩
  cases pc with
  | check => exact hclosed h
  | readSlot => exact ⟨hclosed h.1, by rw [hfifo]; simp⟩
  | setBuffer =>
    obtain ⟨hc, g, hg, hslot⟩ := h
    exact ⟨hclosed hc, g, hhead g hg, hslot⟩
  | readLength =>
    obtain ⟨hc, g, hg, hbuf⟩ := h
    exact ⟨hclosed hc, g, hhead g hg, hbuf⟩
  | process =>
    obtain ⟨hc, g, hg, hname⟩ := h
    exact ⟨hclosed hc, g, hhead g hg, hname⟩
  | inFrame =>
    obtain ⟨g, evs, k, hevs, hserved, hg, hname⟩ := h
    exact ⟨g, evs, k, hevs, by rw [htake]; exact hserved, hhead g hg, hname⟩

theorem stands_look (h : Stands s .inFrame) :
    Stands { s with events := s.events ++ [.looked s.name] } .inFrame := by
  obtain ⟨f, evs, k, hevs, hserved, hf, hname⟩ := h
  refine ⟨f, evs, k + 1, ?_, hserved, hf, hname⟩
  show s.events ++ [.looked s.name] = _
  rw [hevs, hname, serving, serving, List.replicate_succ']
  simp

theorem mainStands_arrive (hr : s.removed ≤ s.accepted.length) (f : RxFrame) {pc : MainPc}
    (h : MainStands s pc) : MainStands { s with accepted := s.accepted ++ [f] } pc := by
  obtain ⟨hclosed, hstands⟩ := stands_arrive hr f
  cases pc with
  | poll pc =>
    cases pc with
    | readSlot => exact hclosed h
    | check => exact hstands .check h
    | setBuffer => exact hstands .setBuffer h
    | readLength => exact hstands .readLength h
    | process => exact hstands .process h
    | inFrame => exact hstands .inFrame h
  | attach | evEnable | setMask | work => exact hclosed h

/-- Outside the body of its `udp_service` `main` has no frame in `process_frame`. -/
theorem closed_of_outside {pc : MainPc} (h : MainStands s pc) (ho : pc.Outside) : Closed s := by
  cases pc with
  | poll pc => cases pc <;> first | exact h | exact absurd ho id
  | attach | evEnable | setMask | work => exact h

theorem mainStands_of_closed {pc : MainPc} (h : Closed s) (ho : pc.Outside) : MainStands s pc := by
  cases pc with
  | poll pc => cases pc <;> first | exact h | exact absurd ho id
  | attach | evEnable | setMask | work => exact h

/-- What `main` finds before a step of its `udp_service`, once its condition is met. -/
theorem stands_of_mainStands {pc : ServicePc} (h : MainStands s (.poll pc))
    (hok : pc = .readSlot → s.fifo ≠ []) : Stands s pc := by
  cases pc with
  | readSlot => exact ⟨h, hok rfl⟩
  | check | setBuffer | readLength | process | inFrame => exact h

theorem mainStands_of_stands {pc : ServicePc} (h : Stands s pc) : MainStands s (.poll pc) := by
  cases pc with
  | readSlot => exact h.1
  | check | setBuffer | readLength | process | inFrame => exact h

/-- The positions do not matter to what holds. -/
theorem stands_congr {t : State} {pc : ServicePc} (h : Stands s pc) (main : MainPc) (isr : Option IsrPc)
    (ht : t = { s with main := main, isr := isr }) : Stands t pc := by
  subst ht
  cases pc <;> exact h

theorem main_inv (h : Inv s) (hisr : s.isr = none) (hok : Exclusive s .main) : Inv (mainStep left s) := by
  obtain ⟨hr, hst⟩ := h
  rw [hisr] at hst
  cases hm : s.main with
  | attach | evEnable | setMask | work =>
    rw [hm] at hst
    simp only [mainStep, hm]
    refine ⟨hr, ?_⟩
    simp only [hisr]
    exact hst
  | poll pc =>
    simp only [hm] at hst
    obtain ⟨hr', -, hnext⟩ := service_stands left hr (stands_of_mainStands hst fun hp => hok (by rw [hm, hp]))
    have hisr' : (serviceStep left s pc).1.isr = none := by cases pc <;> exact hisr
    simp only [mainStep, hm]
    refine ⟨hr', ?_⟩
    simp only [hisr']
    cases hp : (serviceStep left s pc).2 with
    | none =>
      rw [hp] at hnext
      exact hnext
    | some pc' =>
      rw [hp] at hnext
      exact mainStands_of_stands (stands_congr hnext (.poll pc') none (by simp [← hisr']))

theorem isr_inv {i : IsrPc} (h : Inv s) (hisr : s.isr = some i) : Inv (isrStep left s i) := by
  obtain ⟨hr, hst⟩ := h
  rw [hisr] at hst
  cases i with
  | loop =>
    obtain ⟨hc, ho⟩ := hst
    refine ⟨hr, ?_⟩
    by_cases hf : s.fifo = []
    · simp only [isrStep, if_pos hf]
      exact mainStands_of_closed hc ho
    · simp only [isrStep, if_neg hf]
      exact ⟨hc, ho⟩
  | service pc =>
    obtain ⟨hp, ho⟩ := hst
    obtain ⟨hr', hmain, hnext⟩ := service_stands left hr hp
    refine ⟨hr', ?_⟩
    rw [← hmain] at ho
    cases hn : (serviceStep left s pc).2 with
    | none =>
      rw [hn] at hnext
      simpa [isrStep, hn] using ⟨hnext, ho⟩
    | some pc' =>
      rw [hn] at hnext
      simp only [isrStep, hn, Option.map_some, Option.getD_some]
      exact ⟨stands_congr hnext _ _ rfl, ho⟩

/-- **A step keeps the invariant**, as long as the two contexts exclude each other. -/
theorem step_inv {t : State} {l : Label} (h : Inv s) (hok : Exclusive s l) (hs : step left s l = some t) :
    Inv t := by
  cases l with
  | arrive f =>
    obtain rfl := Option.some.inj hs
    obtain ⟨hr, hst⟩ := h
    obtain ⟨hclosed, hstands⟩ := stands_arrive hr f
    refine ⟨by simp only [List.length_append]; omega, ?_⟩
    show match s.isr with | _ => _
    cases hi : s.isr with
    | none =>
      rw [hi] at hst
      exact mainStands_arrive hr f hst
    | some i =>
      rw [hi] at hst
      cases i with
      | loop => exact ⟨hclosed hst.1, hst.2⟩
      | service pc => exact ⟨hstands pc hst.1, hst.2⟩
  | interrupt =>
    unfold step at hs
    dsimp only at hs
    split_ifs at hs with hg
    obtain rfl := Option.some.inj hs
    obtain ⟨hr, hst⟩ := h
    rw [hg.1] at hst
    exact ⟨hr, closed_of_outside hst hok, hok⟩
  | main =>
    unfold step at hs
    dsimp only at hs
    split_ifs at hs with hi
    obtain rfl := Option.some.inj hs
    exact main_inv left h hi hok
  | isr =>
    obtain ⟨i, hi, rfl⟩ := Option.map_eq_some_iff.mp hs
    exact isr_inv left h hi
  | look =>
    unfold step at hs
    dsimp only at hs
    split_ifs at hs with hin
    obtain rfl := Option.some.inj hs
    obtain ⟨hr, hst⟩ := h
    refine ⟨hr, ?_⟩
    rcases hin with hi | ⟨hi, hm⟩
    · simp only [hi] at hst ⊢
      exact ⟨stands_look hst.1, hst.2⟩
    · simp only [hi, hm] at hst ⊢
      exact stands_look hst

/-! ### The run -/

theorem start_inv (fs : List RxFrame) (rxSlot rxBuffer rxLen : ℕ) : Inv (start fs rxSlot rxBuffer rxLen) :=
  ⟨Nat.zero_le _, Served.nil⟩

theorem servedOnce_of_closed (h : Closed s) : ServedOnce s := ⟨s.events, [], by simp, h, Or.inl rfl⟩

theorem servedOnce_of_stands (pc : ServicePc) (h : Stands s pc) : ServedOnce s := by
  cases pc with
  | check => exact servedOnce_of_closed h
  | readSlot | setBuffer | readLength | process => exact servedOnce_of_closed h.1
  | inFrame =>
    obtain ⟨f, evs, k, hevs, hserved, hf, -⟩ := h
    exact ⟨evs, serving f k, hevs, hserved, Or.inr ⟨f, k, hf, rfl⟩⟩

theorem Inv.servedOnce (h : Inv s) : ServedOnce s := by
  obtain ⟨-, hst⟩ := h
  cases hi : s.isr with
  | none =>
    simp only [hi] at hst
    cases hm : s.main with
    | poll pc =>
      rw [hm] at hst
      cases pc with
      | readSlot => exact servedOnce_of_closed hst
      | check => exact servedOnce_of_stands .check hst
      | setBuffer => exact servedOnce_of_stands .setBuffer hst
      | readLength => exact servedOnce_of_stands .readLength hst
      | process => exact servedOnce_of_stands .process hst
      | inFrame => exact servedOnce_of_stands .inFrame hst
    | attach | evEnable | setMask | work =>
      rw [hm] at hst
      exact servedOnce_of_closed hst
  | some i =>
    simp only [hi] at hst
    cases i with
    | loop => exact servedOnce_of_closed hst.1
    | service pc => exact servedOnce_of_stands pc hst.1

/-- **Every received frame is served once.** Whatever arrives, and whenever the
interrupt comes, as long as it does not come inside the body of a `udp_service`
of `main` and that body is not started with an empty FIFO: the frames removed
are the first accepted ones, each passed to `process_frame` once, named by
`rxbuffer` and `rxlen` at every look, and removed by the acknowledge after it;
and a frame in `process_frame` is the next one. So the frames passed are the
first accepted ones, in order. -/
theorem frames_served_once (fs : List RxFrame) (rxSlot rxBuffer rxLen : ℕ) (sched : List Label) (s : State)
    (hrun : run (step left) (start fs rxSlot rxBuffer rxLen) sched = some s)
    (hmeets : Meets (step left) Exclusive (start fs rxSlot rxBuffer rxLen) sched) :
    ServedOnce s ∧ passedOf s.events <+: s.accepted.map (·.name) := by
  have hinv : Inv s := run_invariant_of_meets (step left) (fun _ _ _ h hl hs => step_inv left h hl hs) _ _ _
    (start_inv fs rxSlot rxBuffer rxLen) hmeets hrun
  exact ⟨hinv.servedOnce, hinv.servedOnce.passed⟩

/-- `dtls_io_enable_irq`, all of the work and the cleanup. -/
def toPoll : List Label := [.main, .main, .main, .main]

/-- The handler, from its start to its end, for one frame. -/
def serveOne : List Label := [.interrupt] ++ List.replicate 8 .isr

/-- The rest of a `udp_service` of `main` that has found a frame pending. -/
def pollRest : List Label := List.replicate 5 .main

/-- The registers keep showing the last frame. -/
def lastShown : Leftover := fun _ => ⟨0, 60⟩

/-- A frame served by the handler and one served by the poll. -/
theorem frames_served_once_polled : ∃ s,
    run (step lastShown) (start [] 0 0 0) (toPoll ++ [.arrive ⟨0, 60⟩] ++ serveOne ++
      [.arrive ⟨1, 80⟩, .main] ++ pollRest) = some s ∧ s.removed = 2 ∧ ServedOnce s := by
  have hmap : (run (step lastShown) (start [] 0 0 0) (toPoll ++ [.arrive ⟨0, 60⟩] ++ serveOne ++
      [.arrive ⟨1, 80⟩, .main] ++ pollRest)).map (fun s => s.removed) = some 2 := by decide
  obtain ⟨s, hs, hrem⟩ := Option.map_eq_some_iff.mp hmap
  exact ⟨s, hs, hrem, (frames_served_once lastShown [] 0 0 0 _ s hs (by decide)).1⟩

/-- **The poll serves a stale frame.** The interrupt comes between the test and
the slot read of the poll and serves the only frame; the poll goes on with what
the registers still show, and its acknowledge removes a frame that has come
meanwhile and that nobody has processed. -/
theorem poll_serves_stale :
    ¬ ∀ (left : Leftover) (fs : List RxFrame) (rxSlot rxBuffer rxLen : ℕ) (sched : List Label) (s : State),
      run (step left) (start fs rxSlot rxBuffer rxLen) sched = some s →
      ServedOnce s ∧ passedOf s.events <+: s.accepted.map (·.name) := by
  intro hall
  have hmap : (run (step lastShown) (start [] 0 0 0) (toPoll ++ [.arrive ⟨0, 60⟩, .main] ++ serveOne ++
      [.main, .main, .main, .main, .arrive ⟨1, 80⟩, .main])).map
        (fun s => (passedOf s.events, s.accepted.map (·.name), s.removed)) =
      some ([(0, 60), (0, 60)], [(0, 60), (2048, 80)], 2) := by decide
  obtain ⟨s, hs, hout⟩ := Option.map_eq_some_iff.mp hmap
  simp only [Prod.mk.injEq] at hout
  have hpre := (hall lastShown [] 0 0 0 _ s hs).2
  rw [hout.1, hout.2.1] at hpre
  exact absurd hpre (by decide)

end RxService
end PqcDtls
