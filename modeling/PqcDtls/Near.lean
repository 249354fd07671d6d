/-
# What a received frame leaves to a send

A frame that the stack answers, an ARP request for its address or an echo
request, takes the transmit slot (`Eth.Replies`); an ARP answer changes the
cached address (`Eth.Recaches`). Every other frame changes nothing a send
reads: only the receive side of the memory and of the globals
(`processFrame_near`). Two calls that differ in that only stay so along the
statements of a send (`near_act`), the copies of the cached address apart.
-/
import PqcDtls.SendFrame
import PqcDtls.DtlsIo

namespace PqcDtls

open Lib

variable (soc : Soc)

namespace Eth

/-! ### The frames that touch the transmit side -/

/-- The tests of `process_arp` up to the opcode. -/
def ArpOk (e : Eth) : Prop :=
  ¬ e.rxLen < 60 ∧ ntohs (e.rx16 14) = 1 ∧ ntohs (e.rx16 16) = 0x0800 ∧ e.rx8 18 = 6 ∧ e.rx8 19 = 4

def ArpRequest (e : Eth) : Prop :=
  ntohs (e.rx16 12) = 0x0806 ∧ e.ArpOk ∧ ntohs (e.rx16 20) = 1 ∧ ntohl (e.rx32 38) = e.myIp

def ArpAnswer (e : Eth) : Prop :=
  ntohs (e.rx16 12) = 0x0806 ∧ e.ArpOk ∧ ntohs (e.rx16 20) = 2 ∧ ntohl (e.rx32 28) = e.cachedIp

def EchoRequest (e : Eth) : Prop :=
  ntohs (e.rx16 12) = 0x0800 ∧ e.rx8 14 = 0x45 ∧ ntohl (e.rx32 30) = e.myIp ∧ e.rx8 23 = 0x01 ∧
    ¬ e.rxLen < 42 ∧ ¬ (ntohs (e.rx16 16)).toNat < 28 ∧ e.rx8 34 = 8

/-- The frame in the receive slot is answered from the transmit slot. -/
def Replies (e : Eth) : Prop := e.ArpRequest ∨ e.EchoRequest

/-- The frame in the receive slot changes the cached address. -/
def Recaches (e : Eth) : Prop := e.ArpAnswer ∧ e.rxMac 22 ≠ e.cachedMac

instance (e : Eth) : Decidable e.ArpOk := inferInstanceAs (Decidable (_ ∧ _ ∧ _ ∧ _ ∧ _))
instance (e : Eth) : Decidable e.ArpRequest := inferInstanceAs (Decidable (_ ∧ _ ∧ _ ∧ _))
instance (e : Eth) : Decidable e.ArpAnswer := inferInstanceAs (Decidable (_ ∧ _ ∧ _ ∧ _))
instance (e : Eth) : Decidable e.EchoRequest := inferInstanceAs (Decidable (_ ∧ _ ∧ _ ∧ _ ∧ _ ∧ _ ∧ _))
instance (e : Eth) : Decidable e.Replies := inferInstanceAs (Decidable (_ ∨ _))
instance (e : Eth) : Decidable e.Recaches := inferInstanceAs (Decidable (_ ∧ _))

/-! ### Serving any other frame -/

theorem processArp_quiet {e : Eth} (h12 : ntohs (e.rx16 12) = 0x0806) (h : ¬ e.Replies) :
    ∃ mac, e.processArp soc = { e with cachedMac := mac } ∧ (¬ e.Recaches → mac = e.cachedMac) := by
  have hkeep : ∃ mac, e = { e with cachedMac := mac } ∧ (¬ e.Recaches → mac = e.cachedMac) :=
    ⟨e.cachedMac, rfl, fun _ => rfl⟩
  by_cases hok : e.ArpOk
  · obtain ⟨g1, g2, g3, g4, g5⟩ := id hok
    rw [processArp, if_neg g1, if_neg (not_not.mpr g2), if_neg (not_not.mpr g3), if_neg (not_not.mpr g4),
      if_neg (not_not.mpr g5)]
    by_cases g6 : ntohs (e.rx16 20) = 2
    · rw [if_pos g6]
      by_cases g7 : ntohl (e.rx32 28) = e.cachedIp
      · rw [if_pos g7]
        refine ⟨e.rxMac 22, rfl, fun hr => ?_⟩
        by_contra hne
        exact hr ⟨⟨h12, hok, g6, g7⟩, hne⟩
      · rw [if_neg g7]
        exact hkeep
    · rw [if_neg g6]
      by_cases g7 : ntohs (e.rx16 20) = 1
      · have g8 : ntohl (e.rx32 38) ≠ e.myIp := fun hip => h (Or.inl ⟨h12, hok, g7, hip⟩)
        rw [if_pos g7, if_neg g8]
        exact hkeep
      · rw [if_neg g7]
        exact hkeep
  · have hsame : e.processArp soc = e := by
      unfold processArp
      by_cases g1 : e.rxLen < 60
      · rw [if_pos g1]
      by_cases g2 : ntohs (e.rx16 14) = 1
      swap
      · rw [if_neg g1, if_pos g2]
      by_cases g3 : ntohs (e.rx16 16) = 0x0800
      swap
      · rw [if_neg g1, if_neg (not_not.mpr g2), if_pos g3]
      by_cases g4 : e.rx8 18 = 6
      swap
      · rw [if_neg g1, if_neg (not_not.mpr g2), if_neg (not_not.mpr g3), if_pos g4]
      by_cases g5 : e.rx8 19 = 4
      · exact absurd ⟨g1, g2, g3, g4, g5⟩ hok
      · rw [if_neg g1, if_neg (not_not.mpr g2), if_neg (not_not.mpr g3), if_neg (not_not.mpr g4), if_pos g5]
    rw [hsame]
    exact hkeep

theorem processIcmp_quiet {e : Eth} (h : ¬ (¬ e.rxLen < 42 ∧ ¬ (ntohs (e.rx16 16)).toNat < 28 ∧ e.rx8 34 = 8)) :
    ∃ p, e.processIcmp soc = { e with pingTsSend := p } := by
  unfold processIcmp
  by_cases g1 : e.rxLen < 42
  · exact ⟨e.pingTsSend, by rw [if_pos g1]⟩
  by_cases g2 : (ntohs (e.rx16 16)).toNat < 28
  · exact ⟨e.pingTsSend, by rw [if_neg g1, if_pos g2]⟩
  by_cases g3 : e.rx8 34 = 8
  · exact absurd ⟨g1, g2, g3⟩ h
  simp only [if_neg g1, if_neg g2, if_neg g3]
  split_ifs
  · exact ⟨e.pingTsSend, rfl⟩
  · exact ⟨e.pingTsSend, rfl⟩
  · exact ⟨0, rfl⟩
  · exact ⟨e.pingTsSend, rfl⟩

/-- A frame that is not answered changes at most the cached address and the
ping's time. -/
theorem processFrame_quiet {e : Eth} (h : ¬ e.Replies) :
    ∃ p mac, (e.processFrame soc).1 = { e with pingTsSend := p, cachedMac := mac } ∧
      (¬ e.Recaches → mac = e.cachedMac) := by
  have hkeep : ∃ p mac, e = { e with pingTsSend := p, cachedMac := mac } ∧
      (¬ e.Recaches → mac = e.cachedMac) := ⟨e.pingTsSend, e.cachedMac, rfl, fun _ => rfl⟩
  unfold processFrame
  by_cases g1 : ntohs (e.rx16 12) = 0x0806
  · obtain ⟨mac, he, hm⟩ := processArp_quiet soc g1 h
    rw [if_pos g1]
    exact ⟨e.pingTsSend, mac, he, hm⟩
  rw [if_neg g1]
  by_cases g2 : ntohs (e.rx16 12) = 0x0800
  swap
  · rw [if_neg g2]; exact hkeep
  rw [if_pos g2]
  by_cases g3 : e.rx8 14 = 0x45
  swap
  · rw [if_pos g3]; exact hkeep
  rw [if_neg (not_not.mpr g3)]
  by_cases g4 : ntohl (e.rx32 30) = e.myIp
  swap
  · rw [if_pos g4]; exact hkeep
  rw [if_neg (not_not.mpr g4)]
  by_cases g5 : e.rx8 23 = 0x11
  · rw [if_pos g5]; exact hkeep
  rw [if_neg g5]
  by_cases g6 : e.rx8 23 = 0x01
  · rw [if_pos g6]
    obtain ⟨p, hp⟩ := processIcmp_quiet soc fun hc => h (Or.inr ⟨g2, g3, g4, g6, hc⟩)
    exact ⟨p, e.cachedMac, hp, fun _ => rfl⟩
  · rw [if_neg g6]; exact hkeep

/-! ### Stacks that agree on the transmit side -/

/-- The stacks differ in the receive slots, the receive globals, the ping's time
and the cached address only. -/
def Near (e e' : Eth) : Prop :=
  ∃ (m : Mem) (a b d : ℕ) (p : UInt64) (mac : MacAddr),
    e' = { e with mem := m, rxSlot := a, rxLen := b, rxBuffer := d, pingTsSend := p, cachedMac := mac } ∧
    ∀ x, soc.txAddr 0 ≤ x → m x = e.mem x

theorem Near.refl (e : Eth) : e.Near soc e :=
  ⟨e.mem, e.rxSlot, e.rxLen, e.rxBuffer, e.pingTsSend, e.cachedMac, rfl, fun _ _ => rfl⟩

theorem Near.trans {e₁ e₂ e₃ : Eth} (h : e₁.Near soc e₂) (h' : e₂.Near soc e₃) : e₁.Near soc e₃ := by
  obtain ⟨m, a, b, d, p, mac, rfl, hm⟩ := h
  obtain ⟨m', a', b', d', p', mac', rfl, hm'⟩ := h'
  exact ⟨m', a', b', d', p', mac', rfl, fun x hx => (hm' x hx).trans (hm x hx)⟩

end Eth

/-- The receive slots lie below the transmit slots. -/
theorem rxAddr_end {slot : ℕ} (h : slot < soc.rxSlots) : rxAddr slot + 2048 ≤ soc.txAddr 0 := by
  unfold rxAddr Soc.txAddr
  omega

theorem txAddr_ge (slot : ℕ) : soc.txAddr 0 ≤ soc.txAddr slot := by
  unfold Soc.txAddr
  omega

/-- **A frame that is not answered stays on the receive side.** -/
theorem service_near {n : Node} {slot : ℕ} {f : List UInt8} (hs : slot < soc.rxSlots)
    (hf : f.length ≤ 2048) (h : ¬ ((n.store slot f).fetch slot f.length).eth.Replies) :
    n.eth.Near soc ((n.store slot f).service soc slot f.length).eth ∧
      (¬ ((n.store slot f).fetch slot f.length).eth.Recaches →
        ((n.store slot f).service soc slot f.length).eth.cachedMac = n.eth.cachedMac) := by
  obtain ⟨p, mac, he, hmac⟩ := Eth.processFrame_quiet soc h
  rw [Node.service_eth, he]
  refine ⟨⟨_, _, _, _, p, mac, rfl, fun x hx => ?_⟩, fun hr => hmac hr⟩
  have := rxAddr_end soc hs
  exact Mem.write_apply_out _ _ (by omega)

/-! ### Statements on calls that agree on the transmit side -/

/-- The calls agree but for the receive side of the stack. -/
def Call.Near (c c' : Call) : Prop := ∃ e', c' = { c with eth := e' } ∧ c.eth.Near soc e'

theorem Call.Near.refl (c : Call) : c.Near soc c := ⟨c.eth, rfl, Eth.Near.refl soc c.eth⟩

theorem Call.Near.trans {c₁ c₂ c₃ : Call} (h : c₁.Near soc c₂) (h' : c₂.Near soc c₃) : c₁.Near soc c₃ := by
  obtain ⟨e, rfl, he⟩ := h
  obtain ⟨e', rfl, he'⟩ := h'
  exact ⟨e', rfl, he.trans soc he'⟩

/-- A checksum sees only the bytes it sums. -/
theorem ipChecksum_congr (m m' : Mem) {a len : ℕ} (h : ∀ i, i < len → m (a + i) = m' (a + i)) (r : UInt32)
    (complete : Bool) : Eth.ipChecksum r m a len complete = Eth.ipChecksum r m' a len complete := by
  have hfold : ∀ k, 2 * k ≤ len → (List.range k).foldl (fun r i => r + Eth.word m (a + 2 * i)) r =
      (List.range k).foldl (fun r i => r + Eth.word m' (a + 2 * i)) r := by
    intro k hk
    induction k with
    | zero => rfl
    | succ k ih =>
      have hw : Eth.word m (a + 2 * k) = Eth.word m' (a + 2 * k) := by
        unfold Eth.word
        rw [h (2 * k) (by omega), Nat.add_assoc, h (2 * k + 1) (by omega)]
      rw [List.range_succ, List.foldl_append, List.foldl_append, ih (by omega)]
      simp only [List.foldl_cons, List.foldl_nil, hw]
  unfold Eth.ipChecksum
  rw [hfold (len / 2) (by omega)]

/-- The statements that read the cached address. -/
def Instr.ReadsMac : Instr → Prop
  | .testMac _ => True
  | .destMac _ => True
  | _ => False

theorem set_agree {m m' : Mem} {base : ℕ} (h : ∀ x, base ≤ x → m' x = m x) (a : ℕ) (v : UInt8) :
    ∀ x, base ≤ x → m'.set a v x = m.set a v x := by
  intro x hx
  rw [Mem.set_apply, Mem.set_apply, h x hx]

theorem store16_agree {m m' : Mem} {base : ℕ} (h : ∀ x, base ≤ x → m' x = m x) (a : ℕ) (v : UInt16) :
    ∀ x, base ≤ x → m'.store16 a v x = m.store16 a v x :=
  set_agree (set_agree h _ _) _ _

theorem store32_agree {m m' : Mem} {base : ℕ} (h : ∀ x, base ≤ x → m' x = m x) (a : ℕ) (v : UInt32) :
    ∀ x, base ≤ x → m'.store32 a v x = m.store32 a v x :=
  set_agree (set_agree (set_agree (set_agree h _ _) _ _) _ _) _ _

/-- **A statement keeps calls in agreement**, as long as it does not read the
cached address or that is the same. -/
theorem near_act {c c' : Call} (h : c.Near soc c') (hb : soc.txAddr 0 ≤ c.eth.txBuffer) {i : Instr}
    (hi : i.ReadsMac → c'.eth.cachedMac = c.eth.cachedMac) : (i.act soc c).Near soc (i.act soc c') := by
  obtain ⟨e', rfl, m, a, b, d, p, mac, rfl, hm⟩ := h
  cases i with
  | getTxBuffer => exact ⟨_, rfl, m, a, b, d, p, mac, rfl, hm⟩
  | copy i => exact ⟨_, rfl, _, a, b, d, p, mac, rfl, set_agree hm _ _⟩
  | testMac i =>
    have hmac : mac = c.eth.cachedMac := hi trivial
    subst hmac
    exact ⟨_, rfl, m, a, b, d, p, c.eth.cachedMac, rfl, hm⟩
  | returnIfZero =>
    simp only [Instr.act]
    split_ifs
    · exact ⟨_, rfl, m, a, b, d, p, mac, rfl, hm⟩
    · exact ⟨_, rfl, m, a, b, d, p, mac, rfl, hm⟩
  | txLen => exact ⟨_, rfl, m, a, b, d, p, mac, rfl, hm⟩
  | padTxLen =>
    simp only [Instr.act]
    split_ifs
    · exact ⟨_, rfl, m, a, b, d, p, mac, rfl, hm⟩
    · exact ⟨_, rfl, m, a, b, d, p, mac, rfl, hm⟩
  | destMac i =>
    have hmac : mac = c.eth.cachedMac := hi trivial
    subst hmac
    exact ⟨_, rfl, _, a, b, d, p, c.eth.cachedMac, rfl, set_agree hm _ _⟩
  | srcMac i => exact ⟨_, rfl, _, a, b, d, p, mac, rfl, set_agree hm _ _⟩
  | etherType => exact ⟨_, rfl, _, a, b, d, p, mac, rfl, store16_agree hm _ _⟩
  | ipVersion => exact ⟨_, rfl, _, a, b, d, p, mac, rfl, set_agree hm _ _⟩
  | ipDiffServices => exact ⟨_, rfl, _, a, b, d, p, mac, rfl, set_agree hm _ _⟩
  | ipTotalLength => exact ⟨_, rfl, _, a, b, d, p, mac, rfl, store16_agree hm _ _⟩
  | ipIdentification => exact ⟨_, rfl, _, a, b, d, p, mac, rfl, store16_agree hm _ _⟩
  | ipFragmentOffset => exact ⟨_, rfl, _, a, b, d, p, mac, rfl, store16_agree hm _ _⟩
  | ipTtl => exact ⟨_, rfl, _, a, b, d, p, mac, rfl, set_agree hm _ _⟩
  | ipProto => exact ⟨_, rfl, _, a, b, d, p, mac, rfl, set_agree hm _ _⟩
  | ipChecksumZero => exact ⟨_, rfl, _, a, b, d, p, mac, rfl, store16_agree hm _ _⟩
  | ipSrc => exact ⟨_, rfl, _, a, b, d, p, mac, rfl, store32_agree hm _ _⟩
  | ipDst => exact ⟨_, rfl, _, a, b, d, p, mac, rfl, store32_agree hm _ _⟩
  | ipSum =>
    refine ⟨{ c.eth with
      mem := m, rxSlot := a, rxLen := b, rxBuffer := d, pingTsSend := p, cachedMac := mac }, ?_,
      m, a, b, d, p, mac, rfl, hm⟩
    simp only [Instr.act]
    rw [ipChecksum_congr m c.eth.mem fun i _ => hm _ (by omega)]
  | ipChecksumStore => exact ⟨_, rfl, _, a, b, d, p, mac, rfl, store16_agree hm _ _⟩
  | udpSrcPort => exact ⟨_, rfl, _, a, b, d, p, mac, rfl, store16_agree hm _ _⟩
  | udpDstPort => exact ⟨_, rfl, _, a, b, d, p, mac, rfl, store16_agree hm _ _⟩
  | udpLength => exact ⟨_, rfl, _, a, b, d, p, mac, rfl, store16_agree hm _ _⟩
  | udpChecksumZero => exact ⟨_, rfl, _, a, b, d, p, mac, rfl, store16_agree hm _ _⟩
  | pseudoZero => exact ⟨_, rfl, m, a, b, d, p, mac, rfl, hm⟩
  | pseudoSum => exact ⟨_, rfl, m, a, b, d, p, mac, rfl, hm⟩
  | padOdd =>
    simp only [Instr.act]
    split_ifs
    · exact ⟨_, rfl, _, a, b, d, p, mac, rfl, set_agree hm _ _⟩
    · exact ⟨_, rfl, m, a, b, d, p, mac, rfl, hm⟩
  | udpSum =>
    refine ⟨{ c.eth with
      mem := m, rxSlot := a, rxLen := b, rxBuffer := d, pingTsSend := p, cachedMac := mac }, ?_,
      m, a, b, d, p, mac, rfl, hm⟩
    simp only [Instr.act]
    rw [ipChecksum_congr m c.eth.mem fun i _ => hm _ (by omega)]
  | udpChecksumStore => exact ⟨_, rfl, _, a, b, d, p, mac, rfl, store16_agree hm _ _⟩
  | awaitReady => exact ⟨_, rfl, m, a, b, d, p, mac, rfl, hm⟩
  | slotWrite => exact ⟨_, rfl, m, a, b, d, p, mac, rfl, hm⟩
  | lengthWrite => exact ⟨_, rfl, m, a, b, d, p, mac, rfl, hm⟩
  | startWrite =>
    refine ⟨_, rfl, m, a, b, d, p, mac, ?_, hm⟩
    have hread : m.read (soc.txAddr c.eth.readerSlot) c.eth.readerLength =
        c.eth.mem.read (soc.txAddr c.eth.readerSlot) c.eth.readerLength :=
      Mem.read_congr fun i _ => hm _ (by have := txAddr_ge soc c.eth.readerSlot; omega)
    simp only [Instr.act, Eth.startWrite, hread]
  | nextSlot => exact ⟨_, rfl, m, a, b, d, p, mac, rfl, hm⟩
  | nextBuffer => exact ⟨_, rfl, m, a, b, d, p, mac, rfl, hm⟩
  | done => exact ⟨_, rfl, m, a, b, d, p, mac, rfl, hm⟩

end PqcDtls
