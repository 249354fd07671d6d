/-
# The fragments of a message

Whole runs of `DtlsMsgSet` over the fragments of one message, as the network
brings them: in any order, some of them more than once, some never.

* `ready_only_as_sent`, `ready_iff_all_arrived`: as long as no fragment is stray,
  the message is complete when all of its bytes have come, and it is the one that
  was sent.
* `reassembles_any_order_iff`: of the fragments that `Dtls13SendFragmentedInternal`
  makes, every order is reassembled if and only if there are at most four.
-/
import PqcDtls.Reassembly

namespace PqcDtls
namespace Reassembly

open Lib

/-! ### One fragment -/

/-- `DtlsMsgNew`, of a message to receive. -/
def dtlsMsgNew (sz : ℕ) : DtlsMsg := { sz := sz }

/-- A fragment arrives; the allocator does as it does. -/
def receive (msg : DtlsMsg) (p : Heap × Frag) : Option DtlsMsg := (dtlsMsgSet p.1 msg p.2).map Prod.fst

/-- `DtlsMsgSet` takes the fragment for one of this message. -/
def Accepts (msg : DtlsMsg) (f : Frag) : Prop :=
  (msg.sz = f.totalLen ∧ f.fragOffset + f.data.length ≤ f.totalLen) ∧
    (msg.type = NO_SHAKE ∨ msg.type = f.type ∧ msg.epoch = f.epoch ∧ msg.seq = f.seq)

/-- The message with what a fragment says of it. -/
def DtlsMsg.populated (msg : DtlsMsg) (f : Frag) : DtlsMsg :=
  { msg with
    type := f.type
    epoch := f.epoch
    seq := f.seq
    encrypted := if msg.type = NO_SHAKE then f.encrypted else msg.encrypted && f.encrypted }

theorem dtlsMsgSet_accepts (heap : Heap) {msg : DtlsMsg} {f : Frag} (hr : msg.ready = false) (ha : Accepts msg f) :
    dtlsMsgSet heap msg f = storeFragment heap (msg.populated f) f.fragOffset f.data := by
  obtain ⟨⟨hsz, hend⟩, hid⟩ := ha
  have hpre : ¬(msg.sz ≠ f.totalLen ∨ f.totalLen < f.fragOffset + f.data.length) := by omega
  unfold dtlsMsgSet
  rw [if_neg hpre, if_neg (by simp [hr])]
  by_cases hno : msg.type = NO_SHAKE
  · rw [if_neg (not_not.mpr hno), DtlsMsg.populated, if_pos hno]
  · obtain ⟨h₁, h₂, h₃⟩ := hid.resolve_left hno
    rw [if_pos hno, if_neg (by simp [h₁, h₂, h₃]), DtlsMsg.populated, if_neg hno, ← h₁, ← h₂, ← h₃]

theorem dtlsMsgSet_rejects (heap : Heap) {msg : DtlsMsg} {f : Frag} (h : msg.ready = true ∨ ¬Accepts msg f) :
    ∃ r, dtlsMsgSet heap msg f = some (msg, r) := by
  unfold dtlsMsgSet
  by_cases hpre : msg.sz ≠ f.totalLen ∨ f.totalLen < f.fragOffset + f.data.length
  · exact ⟨_, if_pos hpre⟩
  · rw [if_neg hpre]
    by_cases hr : msg.ready = true
    · exact ⟨_, if_pos hr⟩
    · have hacc := h.resolve_left hr
      rw [if_neg hr]
      have hne : ¬(msg.type = NO_SHAKE ∨ msg.type = f.type ∧ msg.epoch = f.epoch ∧ msg.seq = f.seq) := by
        intro hid
        exact hacc ⟨by omega, hid⟩
      rw [not_or, not_and_or, not_and_or] at hne
      rw [if_pos hne.1, if_pos hne.2]
      exact ⟨_, rfl⟩

/-! ### Any fragments -/

/-- What holds of a message in every run. -/
structure Sane (msg : DtlsMsg) : Prop where
  sz : msg.sz < 2 ^ 32
  isOpen : msg.ready = false → Open msg
  few : msg.fragBucketListCount ≤ FRAG_POOL_SZ
  full : msg.ready = true → msg.raw.length = 12 + msg.sz
  empty : msg.ready = true → msg.fragBucketList = [] ∧ msg.fragBucketListCount = 0

theorem sane_new {sz : ℕ} (h : sz < 2 ^ 32) : Sane (dtlsMsgNew sz) :=
  ⟨h, fun _ => ⟨⟨List.Pairwise.nil, by simp [dtlsMsgNew]⟩, rfl, by simp [dtlsMsgNew], by simp [dtlsMsgNew]⟩,
    by simp [dtlsMsgNew], by simp [dtlsMsgNew], by simp [dtlsMsgNew]⟩

/-- **What a fragment does to a message**: nothing, but for what it says of the
message, or it is stored, and the message is complete when its buckets fill it. -/
theorem receive_cases {msg : DtlsMsg} (h : Sane msg) (heap : Heap) (f : Frag) :
    (receive msg (heap, f) = some msg ∧ (msg.ready = true ∨ ¬Accepts msg f)) ∨
      (msg.ready = false ∧ Accepts msg f ∧
        ((receive msg (heap, f) = some (msg.populated f) ∧
            (heap.ok = false ∨ FRAG_POOL_SZ ≤ msg.fragBucketListCount)) ∨
          ∃ l, Stored msg.fragBucketList f.fragOffset f.data l ∧ (l ≠ [] ∧ l.length ≤ FRAG_POOL_SZ) ∧
            Shaped msg.sz l ∧
            ((sizes l ≠ msg.sz ∧ receive msg (heap, f) = some ((msg.populated f).setBuckets l)) ∨
              ∃ b, l = [b] ∧ b.offset = 0 ∧ b.buf.length = msg.sz ∧
                receive msg (heap, f) = some ((msg.populated f).assembled b.buf)))) := by
  by_cases hrej : msg.ready = true ∨ ¬Accepts msg f
  · obtain ⟨r, hr⟩ := dtlsMsgSet_rejects heap hrej
    exact Or.inl ⟨by rw [receive, hr]; rfl, hrej⟩
  · rw [not_or, not_not, Bool.not_eq_true] at hrej
    obtain ⟨hready, hacc⟩ := hrej
    have heq := dtlsMsgSet_accepts heap hready hacc
    have hopen := h.isOpen hready
    have hopen' : Open (msg.populated f) := ⟨hopen.shaped, hopen.count, hopen.received, hopen.short⟩
    have hend : f.fragOffset + f.data.length ≤ msg.sz := by
      have := hacc.1
      omega
    refine Or.inr ⟨hready, hacc, ?_⟩
    rcases storeFragment_cases heap hopen' h.sz hend with ⟨r, hr, hwhy⟩ | ⟨l, hstored, ⟨hne, hlen⟩, hr⟩
    · exact Or.inl ⟨by rw [receive, heq, hr]; rfl, hwhy⟩
    · have hshaped : Shaped msg.sz l := hstored.shaped hopen.shaped hend
      have hlen' : l.length ≤ FRAG_POOL_SZ := by
        have hfew := h.few
        have : (msg.populated f).fragBucketListCount = msg.fragBucketListCount := rfl
        omega
      refine Or.inr ⟨l, hstored, ⟨hne, hlen'⟩, hshaped, ?_⟩
      rcases finishSet_cases (msg.populated f) hshaped hne with ⟨hs, hf⟩ | ⟨b, hb, ho, hblen, hf⟩
      · exact Or.inl ⟨hs, by rw [receive, heq, hr, hf]; rfl⟩
      · exact Or.inr ⟨b, hb, ho, hblen, by rw [receive, heq, hr, hf]; rfl⟩

/-- An incomplete message takes from the fragment what it is of. -/
theorem receive_populates {msg t : DtlsMsg} {heap : Heap} {f : Frag} (h : Sane msg) (hr : msg.ready = false)
    (ha : Accepts msg f) (ht : receive msg (heap, f) = some t) :
    (t.type = f.type ∧ t.epoch = f.epoch ∧ t.seq = f.seq) ∧ t.encrypted = (msg.populated f).encrypted := by
  rcases receive_cases h heap f with ⟨-, hrej⟩ | ⟨_, _, hcase⟩
  · rcases hrej with h | h
    · exact absurd (hr.symm.trans h) Bool.false_ne_true
    · exact absurd ha h
  · rcases hcase with ⟨heq, _⟩ | ⟨l, _, _, _, ⟨_, heq⟩ | ⟨b, _, _, _, heq⟩⟩
    all_goals
      rw [Option.some.inj (ht.symm.trans heq)]
      exact ⟨⟨rfl, rfl, rfl⟩, rfl⟩

/-- A complete message, or one that the fragment is not of, stays as it is. -/
theorem receive_same {msg t : DtlsMsg} {heap : Heap} {f : Frag} (hrej : msg.ready = true ∨ ¬Accepts msg f)
    (ht : receive msg (heap, f) = some t) : t = msg := by
  obtain ⟨r, hr⟩ := dtlsMsgSet_rejects heap hrej
  rw [receive, hr] at ht
  exact (Option.some.inj ht).symm

/-- A fragment that there is room for is not an error. -/
theorem dtlsMsgSet_ok {msg : DtlsMsg} {heap : Heap} {f : Frag} (h : Sane msg) (ha : Accepts msg f)
    (hok : heap.ok = true) (hcount : msg.fragBucketListCount < FRAG_POOL_SZ) :
    ∃ t, dtlsMsgSet heap msg f = some (t, .ok) := by
  cases hr : msg.ready with
  | true =>
    refine ⟨msg, ?_⟩
    have hpre := ha.1
    rw [dtlsMsgSet, if_neg (by omega), if_pos hr]
  | false =>
    have hopen := h.isOpen hr
    have hend : f.fragOffset + f.data.length ≤ msg.sz := by
      have := ha.1
      omega
    have hopen' : Open (msg.populated f) := ⟨hopen.shaped, hopen.count, hopen.received, hopen.short⟩
    rw [dtlsMsgSet_accepts heap hr ha]
    rcases storeFragment_cases heap hopen' h.sz hend with ⟨r, -, hwhy⟩ | ⟨l, -, -, heq⟩
    · rcases hwhy with hno | hfull
      · exact absurd (hno.symm.trans hok) Bool.false_ne_true
      · exact absurd hcount (Nat.not_lt.mpr hfull)
    · exact ⟨_, heq⟩

theorem length_handshakeHeader (type : UInt8) (seq sz : ℕ) : (handshakeHeader type seq sz).length = 12 := by
  simp [handshakeHeader, length_bigEndian]

theorem sane_setBuckets {msg : DtlsMsg} (h : Sane msg) {l : List FragBucket} (hl : Shaped msg.sz l)
    (hlen : l.length ≤ FRAG_POOL_SZ) (hs : sizes l ≠ msg.sz) (hr : msg.ready = false) : Sane (msg.setBuckets l) :=
  ⟨h.sz, fun _ => ⟨hl, rfl, fun _ => rfl, fun _ => hs⟩, hlen, fun hr' => absurd (hr.symm.trans hr') Bool.false_ne_true,
    fun hr' => absurd (hr.symm.trans hr') Bool.false_ne_true⟩

theorem sane_assembled {msg : DtlsMsg} (h : Sane msg) {buf : List UInt8} (hb : buf.length = msg.sz) :
    Sane (msg.assembled buf) :=
  ⟨h.sz, fun hr => absurd hr (by simp [DtlsMsg.assembled]), Nat.zero_le _, fun _ => by
    simp [DtlsMsg.assembled, length_handshakeHeader, hb], fun _ => ⟨rfl, rfl⟩⟩

theorem sane_populated {msg : DtlsMsg} (h : Sane msg) (f : Frag) : Sane (msg.populated f) :=
  ⟨h.sz, fun hr => ⟨(h.isOpen hr).shaped, (h.isOpen hr).count, (h.isOpen hr).received, (h.isOpen hr).short⟩, h.few,
    h.full, h.empty⟩

/-- One fragment: there is a next state, and it is as it should be. -/
theorem receive_sane {msg : DtlsMsg} (h : Sane msg) (p : Heap × Frag) :
    ∃ t, receive msg p = some t ∧ Sane t ∧ t.sz = msg.sz := by
  obtain ⟨heap, f⟩ := p
  rcases receive_cases h heap f with ⟨heq, _⟩ | ⟨hready, hacc, hcase⟩
  · exact ⟨msg, heq, h, rfl⟩
  · have hpop := sane_populated h f
    rcases hcase with ⟨heq, _⟩ | ⟨l, _, ⟨_, hlen⟩, hshaped, hcase⟩
    · exact ⟨_, heq, hpop, rfl⟩
    · rcases hcase with ⟨hs, heq⟩ | ⟨b, _, _, hb, heq⟩
      · exact ⟨_, heq, sane_setBuckets hpop hshaped hlen hs hready, rfl⟩
      · exact ⟨_, heq, sane_assembled hpop hb, rfl⟩

/-! ### The fragments of a message -/

/-- What the fragments of one message have in common. -/
structure MsgId where
  seq : ℕ
  epoch : BitVec 16
  type : UInt8

/-- A fragment of the message `M`. -/
structure Frag.Of (f : Frag) (id : MsgId) (M : List UInt8) : Prop where
  seq : f.seq = id.seq
  epoch : f.epoch = id.epoch
  type : f.type = id.type
  totalLen : f.totalLen = M.length
  part : Part M ⟨f.fragOffset, f.data⟩

/-- Where a fragment ends. -/
def Frag.stop (f : Frag) : ℕ := f.fragOffset + f.data.length

/-- The bytes of a fragment. -/
def Frag.Covers (f : Frag) (i : ℕ) : Prop := f.fragOffset ≤ i ∧ i < f.stop

/-- A byte of the message that is counted as received. -/
def Whole (msg : DtlsMsg) (i : ℕ) : Prop := msg.ready = true ∨ Has msg.fragBucketList i

/-- A fragment has come. -/
def Started (msg : DtlsMsg) : Prop := msg.ready = true ∨ msg.fragBucketList ≠ []

/-- The message takes fragments of `id` and `M`. -/
structure Expects (id : MsgId) (M : List UInt8) (msg : DtlsMsg) : Prop where
  sane : Sane msg
  sz : msg.sz = M.length
  id : msg.type = NO_SHAKE ∨ msg.type = id.type ∧ msg.epoch = id.epoch ∧ msg.seq = id.seq

/-- What it holds is right. -/
structure Tracks (id : MsgId) (M : List UInt8) (msg : DtlsMsg) : Prop where
  parts : msg.ready = false → ∀ b ∈ msg.fragBucketList, Part M b
  raw : msg.ready = true → msg.raw = handshakeHeader id.type id.seq M.length ++ M

section OfMessage

variable {id : MsgId} {M : List UInt8} {msg t : DtlsMsg} {heap : Heap} {f : Frag}

theorem expects_new (id : MsgId) (hM : M.length < 2 ^ 24) : Expects id M (dtlsMsgNew M.length) :=
  ⟨sane_new (by omega), rfl, Or.inl rfl⟩

theorem tracks_new (id : MsgId) : Tracks id M (dtlsMsgNew M.length) := ⟨by simp [dtlsMsgNew], by simp [dtlsMsgNew]⟩

theorem accepts_of (h : Expects id M msg) (hf : f.Of id M) : Accepts msg f := by
  have hend : f.fragOffset + f.data.length ≤ M.length := hf.part.1
  refine ⟨⟨h.sz.trans hf.totalLen.symm, hf.totalLen ▸ hend⟩, ?_⟩
  rw [hf.type, hf.epoch, hf.seq]
  exact h.id

/-- There is memory, and a bucket, for a fragment. -/
def Roomy (msg : DtlsMsg) (p : Heap × Frag) : Prop := p.1.ok = true ∧ msg.fragBucketListCount < FRAG_POOL_SZ

/-- **One fragment of the message.** It is dropped for want of room, or its bytes
are counted, and they are right if it is not stray. -/
theorem receive_of (heap : Heap) (h : Expects id M msg) (hf : f.Of id M) :
    ∃ t, receive msg (heap, f) = some t ∧ Expects id M t ∧
    (¬Stray msg.fragBucketList f.fragOffset f.stop → Tracks id M msg → Tracks id M t) ∧
    (¬InGap msg.fragBucketList f.fragOffset f.stop → ∀ i < M.length, Whole t i → Whole msg i ∨ f.Covers i) ∧
    (Roomy msg (heap, f) → Started t ∧
      (¬InGap msg.fragBucketList f.fragOffset f.stop → ∀ i < M.length, Whole msg i ∨ f.Covers i → Whole t i)) := by
  have hid : f.type = id.type ∧ f.epoch = id.epoch ∧ f.seq = id.seq := ⟨hf.type, hf.epoch, hf.seq⟩
  obtain ⟨t, ht, hsane, hsz⟩ := receive_sane h.sane (heap, f)
  refine ⟨t, ht, ?_⟩
  rcases receive_cases h.sane heap f with ⟨heq, hrej⟩ | ⟨hready, _, hcase⟩
  · -- the message is complete already
    have hready := hrej.resolve_right (not_not.mpr (accepts_of h hf))
    obtain rfl : msg = t := Option.some.inj (heq.symm.trans ht)
    exact ⟨h, fun _ ht => ht, fun _ i _ hw => Or.inl hw, fun _ => ⟨Or.inl hready, fun _ i _ _ => Or.inl hready⟩⟩
  · rcases hcase with ⟨heq, hwhy⟩ | ⟨l, hstored, ⟨hne, _⟩, hshaped, hcase⟩
    · obtain rfl := Option.some.inj (heq.symm.trans ht)
      refine ⟨⟨hsane, h.sz, Or.inr hid⟩, fun _ htr => ⟨htr.parts, ?_⟩, fun _ i _ hw => Or.inl hw, ?_⟩
      · intro hr
        exact absurd (hready.symm.trans hr) Bool.false_ne_true
      · rintro ⟨hok, hcount⟩
        rcases hwhy with h | h
        · exact absurd (h.symm.trans hok) Bool.false_ne_true
        · omega
    · have hhas := hstored.has_iff (h.sane.isOpen hready).shaped
      rcases hcase with ⟨hs, heq⟩ | ⟨b, hb, ho, hblen, heq⟩
      · obtain rfl := Option.some.inj (heq.symm.trans ht)
        have hwhole : ∀ i, Whole ((msg.populated f).setBuckets l) i ↔ Has l i := fun i =>
          or_iff_right (by simp [DtlsMsg.setBuckets, DtlsMsg.populated, hready])
        refine ⟨⟨hsane, h.sz, Or.inr hid⟩, fun hstray htr => ⟨fun _ => ?_, ?_⟩, fun hgap i _ hw => ?_,
          fun _ => ⟨Or.inr hne, fun hgap i _ hw => ?_⟩⟩
        · exact hstored.part (h.sane.isOpen hready).shaped (htr.parts hready) hf.part hstray
        · intro hr
          exact absurd (hready.symm.trans hr) Bool.false_ne_true
        · exact ((hhas hgap i).mp ((hwhole i).mp hw)).imp_left Or.inr
        · refine (hwhole i).mpr ((hhas hgap i).mpr (hw.imp_left fun hw => hw.resolve_left ?_))
          simp [hready]
      · obtain rfl := Option.some.inj (heq.symm.trans ht)
        refine ⟨⟨hsane, h.sz, Or.inr hid⟩, fun hstray htr => ⟨fun hr => ?_, fun _ => ?_⟩, fun hgap i hi _ => ?_,
          fun _ => ⟨Or.inl rfl, fun _ i _ _ => Or.inl rfl⟩⟩
        · simp [DtlsMsg.assembled] at hr
        · have hpart := hstored.part (h.sane.isOpen hready).shaped (htr.parts hready) hf.part hstray b (by simp [hb])
          have hbuf : b.buf = M := by
            rw [hpart.2, ho, hblen, h.sz, excerpt_all]
          simp only [DtlsMsg.assembled, DtlsMsg.populated, hf.type, hf.seq, h.sz, hbuf]
        · have hall : Has l i := ⟨b, by simp [hb], by omega, by
            have := h.sz
            rw [FragBucket.stop]
            omega⟩
          exact ((hhas hgap i).mp hall).imp_left Or.inr

/-- A fragment that is not stray. -/
def NotStray (msg : DtlsMsg) (p : Heap × Frag) : Prop := ¬Stray msg.fragBucketList p.2.fragOffset p.2.stop

/-- A fragment that is not in a gap, and has room. -/
def Kept (msg : DtlsMsg) (p : Heap × Frag) : Prop :=
  Roomy msg p ∧ ¬InGap msg.fragBucketList p.2.fragOffset p.2.stop

instance (msg : DtlsMsg) (p : Heap × Frag) : Decidable (NotStray msg p) := inferInstanceAs (Decidable (¬_))

instance (msg : DtlsMsg) (p : Heap × Frag) : Decidable (Roomy msg p) := inferInstanceAs (Decidable (_ ∧ _))

instance (msg : DtlsMsg) (p : Heap × Frag) : Decidable (Kept msg p) := inferInstanceAs (Decidable (_ ∧ _))

/-- A byte that came. -/
def Arrived (fs : List (Heap × Frag)) (i : ℕ) : Prop := ∃ p ∈ fs, p.2.Covers i

theorem arrived_cons (p : Heap × Frag) (fs : List (Heap × Frag)) (i : ℕ) :
    Arrived (p :: fs) i ↔ p.2.Covers i ∨ Arrived fs i := by
  simp [Arrived]

/-- Runs without stray fragments hold what came of the message, and nothing
else. -/
theorem run_tracks : ∀ (fs : List (Heap × Frag)) {msg : DtlsMsg}, Expects id M msg → Tracks id M msg →
    (∀ p ∈ fs, p.2.Of id M) → Meets receive NotStray msg fs →
    ∃ t, run receive msg fs = some t ∧ Expects id M t ∧ Tracks id M t ∧
      ∀ i < M.length, Whole t i → Whole msg i ∨ Arrived fs i
  | [], msg, h, htr, _, _ => ⟨msg, rfl, h, htr, fun _ _ => Or.inl⟩
  | (heap, f) :: fs, msg, h, htr, hfs, hm => by
    obtain ⟨u, hu, hexp, htracks, hwhole, _⟩ := receive_of heap h (hfs _ List.mem_cons_self)
    obtain ⟨t, ht, hexp', htr', hwhole'⟩ := run_tracks fs hexp (htracks hm.1 htr)
      (fun p hp => hfs p (List.mem_cons_of_mem _ hp)) (hm.2 u hu)
    refine ⟨t, (run_cons receive).mpr ⟨u, hu, ht⟩, hexp', htr', ?_⟩
    intro i hi hw
    rw [arrived_cons]
    rcases hwhole' i hi hw with hw | hw
    · exact (hwhole (fun hgap => hm.1 (Or.inl hgap)) i hi hw).imp_right Or.inl
    · exact Or.inr (Or.inr hw)

/-- Runs in which every fragment is kept hold all that came. -/
theorem run_kept : ∀ (fs : List (Heap × Frag)) {msg : DtlsMsg}, Expects id M msg → (∀ p ∈ fs, p.2.Of id M) →
    Meets receive Kept msg fs →
    ∃ t, run receive msg fs = some t ∧ Expects id M t ∧
      (fs ≠ [] ∨ Started msg → Started t) ∧
      ∀ i < M.length, Whole msg i ∨ Arrived fs i → Whole t i
  | [], msg, h, _, _ => ⟨msg, rfl, h, fun hne => hne.resolve_left (by simp), by simp [Arrived]⟩
  | (heap, f) :: fs, msg, h, hfs, hm => by
    obtain ⟨u, hu, hexp, _, _, hroom⟩ := receive_of heap h (hfs _ List.mem_cons_self)
    obtain ⟨hstart, hwhole⟩ := hroom hm.1.1
    obtain ⟨t, ht, hexp', hstart', hwhole'⟩ := run_kept fs hexp (fun p hp => hfs p (List.mem_cons_of_mem _ hp))
      (hm.2 u hu)
    refine ⟨t, (run_cons receive).mpr ⟨u, hu, ht⟩, hexp', fun _ => hstart' (Or.inr hstart), ?_⟩
    intro i hi hw
    rw [arrived_cons] at hw
    rcases hw with hw | hw | hw
    · exact hwhole' i hi (Or.inl (hwhole hm.1.2 i hi (Or.inl hw)))
    · exact hwhole' i hi (Or.inl (hwhole hm.1.2 i hi (Or.inr hw)))
    · exact hwhole' i hi (Or.inr hw)

/-- Buckets that have every byte of the message fill it. -/
theorem sizes_eq_of_has {sz : ℕ} {l : List FragBucket} (hl : Shaped sz l) (hne : l ≠ []) (h : ∀ i < sz, Has l i) :
    sizes l = sz := by
  cases l with
  | nil => exact absurd rfl hne
  | cons b l =>
    have hb := hl.le b List.mem_cons_self
    have hbs : b.stop = b.offset + b.buf.length := rfl
    have hsep := (List.pairwise_cons.mp hl.apart).1
    have hnil : l = [] := by
      -- the byte behind the first bucket is in none
      by_contra hl'
      obtain ⟨c, hc⟩ := List.exists_mem_of_ne_nil _ hl'
      have hcs : c.stop = c.offset + c.buf.length := rfl
      have hc' := hsep c hc
      have hcle := hl.le c (List.mem_cons_of_mem _ hc)
      obtain ⟨d, hd, h₁, h₂⟩ := h b.stop (by omega)
      rcases List.mem_cons.mp hd with rfl | hd
      · omega
      · have := hsep d hd
        omega
    subst hnil
    have hlen : sizes [b] = b.buf.length := by simp [sizes]
    rw [hlen]
    by_contra hlt
    have hmem : ∀ i < sz, b.offset ≤ i ∧ i < b.stop := by
      intro i hi
      obtain ⟨d, hd, hdi⟩ := h i hi
      rwa [List.mem_singleton.mp hd] at hdi
    have h₀ := hmem 0 (by omega)
    have h₁ := hmem (sz - 1) (by omega)
    omega

theorem ready_of_whole (h : Expects id M t) (hs : Started t)
    (hw : ∀ i < M.length, Whole t i) : t.ready = true := by
  by_contra hr
  rw [Bool.not_eq_true] at hr
  have hne := hs.resolve_left (by simp [hr])
  have hopen := h.sane.isOpen hr
  apply hopen.short hne
  apply sizes_eq_of_has hopen.shaped hne
  intro i hi
  rw [h.sz] at hi
  exact (hw i hi).resolve_left (by simp [hr])

/-- **A message that is complete is the one that was sent**, in every run of its
fragments without a stray one, with what memory there is. -/
theorem ready_only_as_sent (id : MsgId) (M : List UInt8) (hM : M.length < 2 ^ 24) (fs : List (Heap × Frag))
    (hfs : ∀ p ∈ fs, p.2.Of id M) (hm : Meets receive NotStray (dtlsMsgNew M.length) fs) :
    ∃ t, run receive (dtlsMsgNew M.length) fs = some t ∧
      (t.ready = true →
        t.raw = handshakeHeader id.type id.seq M.length ++ M ∧ ∀ i < M.length, Arrived fs i) := by
  obtain ⟨t, ht, _, htr, hwhole⟩ := run_tracks fs (expects_new id hM) (tracks_new id) hfs hm
  refine ⟨t, ht, fun hr => ⟨htr.raw hr, fun i hi => ?_⟩⟩
  refine (hwhole i hi (Or.inl hr)).resolve_left ?_
  simp [Whole, dtlsMsgNew, Has]

/-- Three bytes in two fragments that overlap. -/
theorem ready_only_as_sent_overlapping :
    ∃ t, run receive (dtlsMsgNew 3) [(⟨true, fun _ => 0⟩, ⟨5, 2, 11, 0, [1, 2], 3, true⟩),
        (⟨true, fun _ => 0⟩, ⟨5, 2, 11, 1, [2, 3], 3, true⟩)] = some t ∧ t.ready = true ∧
      t.raw = handshakeHeader 11 5 3 ++ [1, 2, 3] := by
  obtain ⟨t, ht, hraw⟩ := ready_only_as_sent ⟨5, 2, 11⟩ [1, 2, 3] (by decide)
    [(⟨true, fun _ => 0⟩, ⟨5, 2, 11, 0, [1, 2], 3, true⟩), (⟨true, fun _ => 0⟩, ⟨5, 2, 11, 1, [2, 3], 3, true⟩)] (by
      intro p hp
      simp only [List.mem_cons, List.not_mem_nil, or_false] at hp
      rcases hp with rfl | rfl
      · exact ⟨rfl, rfl, rfl, rfl, by decide, rfl⟩
      · exact ⟨rfl, rfl, rfl, rfl, by decide, rfl⟩) (by decide)
  have hready : t.ready = true := by
    rw [← Option.some.inj ht]
    rfl
  exact ⟨t, ht, hready, (hraw hready).1⟩

/-- **It is complete exactly when every byte has come**, with room for every
fragment. -/
theorem ready_iff_all_arrived (id : MsgId) (M : List UInt8) (hM : M.length < 2 ^ 24) (fs : List (Heap × Frag))
    (hfs : ∀ p ∈ fs, p.2.Of id M)
    (hm : Meets receive (fun msg p => Roomy msg p ∧ NotStray msg p) (dtlsMsgNew M.length) fs) :
    ∃ t, run receive (dtlsMsgNew M.length) fs = some t ∧
      (t.ready = true ↔ fs ≠ [] ∧ ∀ i < M.length, Arrived fs i) ∧
      (t.ready = true → t.raw = handshakeHeader id.type id.seq M.length ++ M) := by
  have hstray : Meets receive NotStray (dtlsMsgNew M.length) fs := meets_mono receive (fun _ _ h => h.2) hm
  have hkept : Meets receive Kept (dtlsMsgNew M.length) fs :=
    meets_mono receive (fun _ _ h => ⟨h.1, fun hgap => h.2 (Or.inl hgap)⟩) hm
  obtain ⟨t, ht, hexp, htr, hwhole⟩ := run_tracks fs (expects_new id hM) (tracks_new id) hfs hstray
  obtain ⟨t', ht', _, hstart, hwhole'⟩ := run_kept fs (expects_new id hM) hfs hkept
  obtain rfl : t = t' := Option.some.inj (ht.symm.trans ht')
  refine ⟨t, ht, ⟨fun hr => ⟨?_, fun i hi => ?_⟩, fun ⟨hne, hall⟩ => ?_⟩, htr.raw⟩
  · rintro rfl
    simp only [run, Option.some.injEq] at ht
    simp [← ht, dtlsMsgNew] at hr
  · refine (hwhole i hi (Or.inl hr)).resolve_left ?_
    simp [Whole, dtlsMsgNew, Has]
  · exact ready_of_whole hexp (hstart (Or.inl hne)) fun i hi => hwhole' i hi (Or.inr (hall i hi))

end OfMessage

/-! ### Fragments and few buckets -/

section Few

variable {a b : FragBucket} {o : ℕ} {d : List UInt8} {l : List FragBucket}

theorem stored_nil (h : Stored [] o d l) : l = [⟨o, d⟩] := by
  cases h with
  | had hb => simp at hb
  | added hl => obtain ⟨rfl, rfl⟩ := List.append_eq_nil_iff.mp hl.symm; rfl
  | merged hl => simp at hl

theorem stored_behind (h : Stored [b] o d l) (hb : b.stop < o) : l = [b, ⟨o, d⟩] := by
  have hbs : b.stop = b.offset + b.buf.length := rfl
  cases h with
  | had hm ho he =>
    rw [List.mem_singleton.mp hm] at he
    omega
  | @added before after hl _ ha _ =>
    rcases List.append_eq_cons_iff.mp hl.symm with ⟨rfl, rfl⟩ | ⟨c, rfl, hc⟩
    · have := ha b (by simp)
      omega
    · obtain ⟨rfl, rfl⟩ := List.append_eq_nil_iff.mp hc.symm
      rfl
  | @merged before absorbed rest cur m hl _ hm _ _ =>
    rcases List.append_eq_cons_iff.mp hl.symm with ⟨rfl, hc⟩ | ⟨c, rfl, hc⟩
    · obtain ⟨rfl, -⟩ := List.cons.inj hc
      omega
    · simp at hc

/-- A fragment behind the only bucket, and at its end. -/
theorem stored_at_end (h : Stored [b] o d l) (hb : b.stop = o) (hd : d ≠ []) :
    ∃ m, l = [m] ∧ m.offset = b.offset ∧ m.stop = o + d.length := by
  have hbs : b.stop = b.offset + b.buf.length := rfl
  have hpos := List.length_pos_iff.mpr hd
  cases h with
  | had hm ho he =>
    rw [List.mem_singleton.mp hm] at he
    omega
  | @added before after hl hb' ha _ =>
    rcases List.append_eq_cons_iff.mp hl.symm with ⟨rfl, rfl⟩ | ⟨c, rfl, hc⟩
    · have := ha b (by simp)
      omega
    · have := hb' b (by simp)
      omega
  | @merged before absorbed rest cur m hl hb' hm hmerge _ =>
    rcases List.append_eq_cons_iff.mp hl.symm with ⟨rfl, hc⟩ | ⟨c, rfl, hc⟩
    · obtain ⟨rfl, hnil⟩ := List.cons.inj hc
      obtain ⟨rfl, rfl⟩ := List.append_eq_nil_iff.mp hnil
      refine ⟨m, rfl, ?_, ?_⟩
      · rw [hmerge.offset_eq]
        omega
      · rcases hmerge.stop_cases with h | ⟨next, hnext, -⟩
        · omega
        · simp at hnext
    · simp at hc

/-- **A fragment between two buckets becomes one with the second**, and takes
the bytes between them. -/
theorem stored_between (h : Stored [a, b] o d l) (ha : a.stop < o) (hb : o + d.length < b.offset) :
    ∃ m, l = [a, m] ∧ m.offset = o ∧ m.stop = b.stop := by
  have has : a.stop = a.offset + a.buf.length := rfl
  have hbs : b.stop = b.offset + b.buf.length := rfl
  cases h with
  | had hm ho he =>
    simp only [List.mem_cons, List.not_mem_nil, or_false] at hm
    rcases hm with rfl | rfl
    · omega
    · omega
  | @added before after hl hb' ha' hends =>
    exfalso
    rcases hends with rfl | rfl
    · have := ha' a (by rw [← List.nil_append after, ← hl]; simp)
      omega
    · have := hb' b (by rw [← List.append_nil before, ← hl]; simp)
      omega
  | @merged before absorbed rest cur m hl hb' hm hmerge _ =>
    rcases List.append_eq_cons_iff.mp hl.symm with ⟨rfl, hc⟩ | ⟨c, rfl, hc⟩
    · obtain ⟨rfl, -⟩ := List.cons.inj hc
      omega
    · rcases List.append_eq_cons_iff.mp hc.symm with ⟨rfl, hc'⟩ | ⟨c', rfl, hc'⟩
      · obtain ⟨rfl, hnil⟩ := List.cons.inj hc'
        obtain ⟨rfl, rfl⟩ := List.append_eq_nil_iff.mp hnil
        refine ⟨m, rfl, ?_, ?_⟩
        · rw [hmerge.offset_eq]
          omega
        · rcases hmerge.stop_cases with h | ⟨next, hnext, -⟩
          · omega
          · simp at hnext
      · simp at hc'

/-- A fragment that fills what is between two buckets. -/
theorem stored_joins (h : Stored [a, b] o d l) (ha : a.stop = o) (hb : o + d.length = b.offset) (hne : b.buf ≠ [])
    (hd : d ≠ []) : ∃ m, l = [m] ∧ m.offset = a.offset ∧ m.stop = b.stop := by
  have has : a.stop = a.offset + a.buf.length := rfl
  have hbs : b.stop = b.offset + b.buf.length := rfl
  have hpos := List.length_pos_iff.mpr hd
  have hpos' := List.length_pos_iff.mpr hne
  cases h with
  | had hm ho he =>
    simp only [List.mem_cons, List.not_mem_nil, or_false] at hm
    rcases hm with rfl | rfl
    · omega
    · omega
  | @added before after hl hb' ha' hends =>
    exfalso
    rcases hends with rfl | rfl
    · have := ha' a (by rw [← List.nil_append after, ← hl]; simp)
      omega
    · have := hb' a (by rw [← List.append_nil before, ← hl]; simp)
      omega
  | @merged before absorbed rest cur m hl hb' hm hmerge _ =>
    rcases List.append_eq_cons_iff.mp hl.symm with ⟨rfl, hc⟩ | ⟨c, rfl, hc⟩
    · obtain ⟨rfl, htail⟩ := List.cons.inj hc
      have hoff : m.offset = cur.offset := by
        rw [hmerge.offset_eq]
        omega
      have hend := hmerge.end_le
      rcases List.append_eq_cons_iff.mp htail with ⟨rfl, rfl⟩ | ⟨c, rfl, hc'⟩
      · have := hmerge.stop_lt b (by simp)
        omega
      · obtain ⟨rfl, rfl⟩ := List.append_eq_nil_iff.mp hc'.symm
        refine ⟨m, rfl, hoff, ?_⟩
        have hle := hmerge.le_stop b (by simp)
        rcases hmerge.stop_cases with h | ⟨next, hnext, h, -⟩
        · omega
        · rw [h, List.mem_singleton.mp hnext]
    · have := hb' a (by simp)
      omega

end Few

/-! ### The sender's fragments -/

/-- The loop of `Dtls13SendFragmentedInternal`: offset and bytes of each fragment.
`fragLength` is what a record has room for, and `fuel` bounds the iterations. -/
def sendLoop (fragLength : ℕ) (message : List UInt8) : ℕ → ℕ → List (ℕ × List UInt8)
  | 0, _ => []
  | fuel + 1, fragOffset =>
    if fragOffset < message.length then
      let n := min fragLength (message.length - fragOffset)
      (fragOffset, excerpt message fragOffset n) :: sendLoop fragLength message fuel (fragOffset + n)
    else []

/-- `Dtls13SendFragmentedInternal`. -/
def dtls13SendFragmentedInternal (fragLength : ℕ) (message : List UInt8) : List (ℕ × List UInt8) :=
  sendLoop fragLength message message.length 0

/-- One of the fragments that are sent of a message. -/
structure Sent (id : MsgId) (k : ℕ) (M : List UInt8) (f : Frag) : Prop where
  seq : f.seq = id.seq
  epoch : f.epoch = id.epoch
  type : f.type = id.type
  totalLen : f.totalLen = M.length
  mem : (f.fragOffset, f.data) ∈ dtls13SendFragmentedInternal k M

section Sender

variable {id : MsgId} {k : ℕ} {M : List UInt8} {f : Frag}

/-- The fragments start at the multiples of `k`. -/
theorem mem_sendLoop (hk : 0 < k) {o : ℕ} {d : List UInt8} : ∀ (fuel fragOffset : ℕ), M.length ≤ fuel + fragOffset →
    ((o, d) ∈ sendLoop k M fuel fragOffset ↔
      ∃ j, o = fragOffset + j * k ∧ o < M.length ∧ d = excerpt M o (min k (M.length - o)))
  | 0, fragOffset, hfuel => by
    simp only [sendLoop, List.not_mem_nil, false_iff, not_exists]
    rintro j ⟨rfl, hlt, _⟩
    omega
  | fuel + 1, fragOffset, hfuel => by
    unfold sendLoop
    by_cases hlt : fragOffset < M.length
    · rw [if_pos hlt]
      dsimp only
      rw [List.mem_cons, mem_sendLoop hk fuel _ (by omega)]
      constructor
      · rintro (heq | ⟨j, rfl, hlt', rfl⟩)
        · obtain ⟨rfl, rfl⟩ := Prod.mk.inj heq
          exact ⟨0, by omega, hlt, rfl⟩
        · refine ⟨j + 1, ?_, hlt', rfl⟩
          rw [Nat.succ_mul]
          omega
      · rintro ⟨j, rfl, hlt', rfl⟩
        cases j with
        | zero => exact Or.inl (by simp)
        | succ j =>
          rw [Nat.succ_mul] at hlt' ⊢
          exact Or.inr ⟨j, by omega, hlt', rfl⟩
    · rw [if_neg hlt]
      simp only [List.not_mem_nil, false_iff, not_exists]
      rintro j ⟨rfl, hlt', _⟩
      omega

theorem mem_send (hk : 0 < k) {o : ℕ} {d : List UInt8} : (o, d) ∈ dtls13SendFragmentedInternal k M ↔
    ∃ j, o = j * k ∧ o < M.length ∧ d = excerpt M o (min k (M.length - o)) := by
  rw [dtls13SendFragmentedInternal, mem_sendLoop hk _ _ (by omega)]
  simp only [Nat.zero_add]

/-- There are at most `n` of them when `n` times `k` bytes hold the message. -/
theorem length_sendLoop_le (hk : 0 < k) : ∀ (fuel fragOffset n : ℕ), M.length ≤ fuel + fragOffset →
    ((sendLoop k M fuel fragOffset).length ≤ n ↔ M.length ≤ fragOffset + n * k)
  | 0, fragOffset, n, hfuel => by
    simp only [sendLoop, List.length_nil, Nat.zero_le, true_iff]
    omega
  | fuel + 1, fragOffset, n, hfuel => by
    unfold sendLoop
    by_cases hlt : fragOffset < M.length
    · rw [if_pos hlt]
      dsimp only
      rw [List.length_cons]
      cases n with
      | zero => omega
      | succ n =>
        rw [Nat.add_le_add_iff_right, length_sendLoop_le hk fuel _ n (by omega), Nat.succ_mul]
        omega
    · rw [if_neg hlt]
      simp only [List.length_nil, Nat.zero_le, true_iff]
      omega

theorem length_send_le (hk : 0 < k) (n : ℕ) :
    (dtls13SendFragmentedInternal k M).length ≤ n ↔ M.length ≤ n * k := by
  rw [dtls13SendFragmentedInternal, length_sendLoop_le hk _ _ _ (by omega), Nat.zero_add]

/-- A fragment that is sent, by its place. -/
structure Sent.At (f : Frag) (k : ℕ) (M : List UInt8) (j : ℕ) : Prop where
  offset : f.fragOffset = j * k
  lt : j * k < M.length
  stop : f.stop = min (j * k + k) M.length
  ne : f.data ≠ []

theorem sent_at (hk : 0 < k) (h : Sent id k M f) : f.Of id M ∧ ∃ j, Sent.At f k M j := by
  obtain ⟨j, hoff, hlt, hdata⟩ := (mem_send hk).mp h.mem
  have hlen : f.data.length = min k (M.length - f.fragOffset) := by
    rw [hdata]
    apply length_excerpt
    omega
  refine ⟨⟨h.seq, h.epoch, h.type, h.totalLen, ?_⟩, j, hoff, hoff ▸ hlt, ?_, ?_⟩
  · rw [hdata]
    apply part_excerpt
    omega
  · rw [Frag.stop, hlen, ← hoff]
    omega
  · apply List.ne_nil_of_length_pos
    omega

/-- An end of a fragment. -/
def Cut (k : ℕ) (M : List UInt8) (x : ℕ) : Prop := x = M.length ∨ ∃ j, x = j * k

/-- Buckets made of the sender's fragments. -/
def Aligned (k : ℕ) (M : List UInt8) (msg : DtlsMsg) : Prop :=
  ∀ b ∈ msg.fragBucketList, (Cut k M b.offset ∧ Cut k M b.stop) ∧ b.buf ≠ []

/-- The buckets after a fragment: those before it, none, or as it is stored. -/
theorem receive_buckets {heap : Heap} {msg t : DtlsMsg} (h : Sane msg) (ht : receive msg (heap, f) = some t) :
    t.fragBucketList = msg.fragBucketList ∨ t.fragBucketList = [] ∨
      Stored msg.fragBucketList f.fragOffset f.data t.fragBucketList := by
  rcases receive_cases h heap f with ⟨heq, _⟩ | ⟨_, _, hcase⟩
  · rw [Option.some.inj (ht.symm.trans heq)]
    exact Or.inl rfl
  · rcases hcase with ⟨heq, _⟩ | ⟨l, hstored, _, _, ⟨_, heq⟩ | ⟨b, _, _, _, heq⟩⟩
    · rw [Option.some.inj (ht.symm.trans heq)]
      exact Or.inl rfl
    · rw [Option.some.inj (ht.symm.trans heq)]
      exact Or.inr (Or.inr hstored)
    · rw [Option.some.inj (ht.symm.trans heq)]
      exact Or.inr (Or.inl rfl)

theorem aligned_receive {heap : Heap} {msg t : DtlsMsg} (hk : 0 < k) (hs : Sane msg) (h : Aligned k M msg)
    (hf : Sent id k M f) (ht : receive msg (heap, f) = some t) : Aligned k M t := by
  obtain ⟨_, j, hat⟩ := sent_at hk hf
  rcases receive_buckets hs ht with heq | heq | hstored
  · unfold Aligned
    rw [heq]
    exact h
  · unfold Aligned
    rw [heq]
    simp
  · have hoff : Cut k M f.fragOffset := Or.inr ⟨j, hat.offset⟩
    have hend : Cut k M (f.fragOffset + f.data.length) := by
      have hstop : f.fragOffset + f.data.length = min (j * k + k) M.length := hat.stop
      rw [hstop]
      rcases Nat.le_total (j * k + k) M.length with hle | hle
      · rw [Nat.min_eq_left hle]
        exact Or.inr ⟨j + 1, by rw [Nat.succ_mul]⟩
      · exact Or.inl (Nat.min_eq_right hle)
    have hends := hstored.ends (fun b hb => (h b hb).1) hoff hend
    have hne := hstored.nonempty (fun b hb => (h b hb).2) hat.ne
    exact fun b hb => ⟨hends b hb, hne b hb⟩

/-- Where a bucket of the sender's fragments lies: from one multiple of `k` to a
later one, or to the end of the message. -/
theorem aligned_place {msg : DtlsMsg} (hk : 0 < k) (hsh : Shaped M.length msg.fragBucketList)
    (h : Aligned k M msg) {b : FragBucket} (hb : b ∈ msg.fragBucketList) :
    ∃ i, b.offset = i * k ∧ (b.stop = M.length ∨ ∃ j, i < j ∧ b.stop = j * k) ∧ b.offset < b.stop ∧
      b.stop ≤ M.length := by
  obtain ⟨⟨ho, he⟩, hne⟩ := h b hb
  have hle := hsh.le b hb
  have hpos := List.length_pos_iff.mpr hne
  have hstop : b.stop = b.offset + b.buf.length := rfl
  have hlt : b.offset < b.stop := by omega
  obtain ⟨i, hi⟩ := ho.resolve_left (by omega)
  refine ⟨i, hi, ?_, hlt, hle⟩
  refine he.imp_right ?_
  rintro ⟨j, hj⟩
  exact ⟨j, (Nat.mul_lt_mul_right hk).mp (by omega : i * k < j * k), hj⟩

/-- Of at most four fragments there are two buckets at most: a third would start at
the fourth multiple of `k` or behind it. -/
theorem aligned_few {msg : DtlsMsg} (hk : 0 < k) (h4 : M.length ≤ 4 * k)
    (hsh : Shaped M.length msg.fragBucketList) (h : Aligned k M msg) : msg.fragBucketList.length ≤ 2 := by
  rcases hl : msg.fragBucketList with _ | ⟨a, _ | ⟨b, _ | ⟨c, rest⟩⟩⟩
  · simp
  · simp
  · simp
  · exfalso
    have hap := hsh.apart
    rw [hl] at hap
    simp only [List.pairwise_cons, List.mem_cons, forall_eq_or_imp] at hap
    obtain ⟨⟨hab, -, -⟩, ⟨hbc, -⟩, -⟩ := hap
    obtain ⟨i, hi, haj, hane, -⟩ := aligned_place hk hsh h (b := a) (by simp [hl])
    obtain ⟨j, hj, hbj, hbne, hble⟩ := aligned_place hk hsh h (b := b) (by simp [hl])
    obtain ⟨l, hl', -, hcne, hcle⟩ := aligned_place hk hsh h (b := c) (by simp [hl])
    obtain ⟨i', hii, hi'⟩ := haj.resolve_left (by omega)
    obtain ⟨j', hjj, hj'⟩ := hbj.resolve_left (by omega)
    have hij : i' < j := (Nat.mul_lt_mul_right hk).mp (by omega : i' * k < j * k)
    have hjl : j' < l := (Nat.mul_lt_mul_right hk).mp (by omega : j' * k < l * k)
    have h4l : 4 * k ≤ l * k := Nat.mul_le_mul_right k (by omega)
    omega

/-- **Of at most four fragments none is stray, and there is always a bucket for
it.** -/
theorem aligned_kept {heap : Heap} {msg : DtlsMsg} (hk : 0 < k) (h4 : M.length ≤ 4 * k) (hx : Expects id M msg)
    (h : Aligned k M msg) (hok : heap.ok = true) (hf : Sent id k M f) :
    Roomy msg (heap, f) ∧ NotStray msg (heap, f) := by
  obtain ⟨_, j, hat⟩ := sent_at hk hf
  have hoff := hat.offset
  have hstop := hat.stop
  have hlt := hat.lt
  by_cases hready : msg.ready = true
  · obtain ⟨hnil, hcount⟩ := hx.sane.empty hready
    refine ⟨⟨hok, by rw [hcount]; decide⟩, ?_⟩
    simp [NotStray, Stray, InGap, CutsFront, hnil]
  · rw [Bool.not_eq_true] at hready
    have hopen := hx.sane.isOpen hready
    have hshaped : Shaped M.length msg.fragBucketList := hx.sz ▸ hopen.shaped
    refine ⟨⟨hok, ?_⟩, ?_⟩
    · rw [hopen.count]
      have := aligned_few hk h4 hshaped h
      unfold FRAG_POOL_SZ
      omega
    · rintro (⟨⟨a, ha, haend⟩, ⟨c, hc, hcstart⟩, _⟩ | ⟨b, hb, ⟨h₁, h₂, h₃⟩, _⟩)
      · obtain ⟨i, hi, haj, hane, hale⟩ := aligned_place hk hshaped h ha
        obtain ⟨l, hl, -, hcne, hcle⟩ := aligned_place hk hshaped h hc
        dsimp only at haend hcstart
        obtain ⟨i', hii, hi'⟩ := haj.resolve_left (by omega)
        have hij : i' < j := (Nat.mul_lt_mul_right hk).mp (by omega : i' * k < j * k)
        have hjl : j + 1 < l := (Nat.mul_lt_mul_right hk).mp (by rw [Nat.succ_mul]; omega : (j + 1) * k < l * k)
        have h4l : 4 * k ≤ l * k := Nat.mul_le_mul_right k (by omega)
        omega
      · obtain ⟨i, hi, -, hne, hle⟩ := aligned_place hk hshaped h hb
        dsimp only at h₁ h₂ h₃
        have hji : j < i := (Nat.mul_lt_mul_right hk).mp (by omega : j * k < i * k)
        have hij : i < j + 1 := (Nat.mul_lt_mul_right hk).mp (by rw [Nat.succ_mul]; omega : i * k < (j + 1) * k)
        omega

theorem meets_of_four (hk : 0 < k) (h4 : M.length ≤ 4 * k) (hM : M.length < 2 ^ 24) {fs : List (Heap × Frag)}
    (hfs : ∀ p ∈ fs, p.1.ok = true ∧ Sent id k M p.2) :
    Meets receive (fun msg p => Roomy msg p ∧ NotStray msg p) (dtlsMsgNew M.length) fs := by
  refine meets_of_invariant receive (I := fun msg => Expects id M msg ∧ Aligned k M msg)
    (Q := fun p => p.1.ok = true ∧ Sent id k M p.2) ?_ ?_ ⟨expects_new id hM, ?_⟩ hfs
  · rintro msg ⟨heap, f⟩ ⟨hx, hal⟩ ⟨hok, hf⟩
    exact aligned_kept hk h4 hx hal hok hf
  · rintro msg ⟨heap, f⟩ t ⟨hx, hal⟩ ⟨hok, hf⟩ ht
    obtain ⟨u, hu, hx', -⟩ := receive_of heap hx (sent_at hk hf).1
    obtain rfl : u = t := Option.some.inj (hu.symm.trans ht)
    exact ⟨hx', aligned_receive hk hx.sane hal hf ht⟩
  · simp [Aligned, dtlsMsgNew]

/-- A fragment that is stored: the message goes on with the new buckets, or they
fill it and it is complete. -/
theorem receive_stored {heap : Heap} {msg : DtlsMsg} (hx : Expects id M msg) (hready : msg.ready = false)
    (hf : f.Of id M) (hroom : Roomy msg (heap, f)) :
    ∃ t l, receive msg (heap, f) = some t ∧ Expects id M t ∧ Stored msg.fragBucketList f.fragOffset f.data l ∧
      ((t.ready = false ∧ t.fragBucketList = l ∧ sizes l ≠ M.length) ∨
        (t.ready = true ∧ ∃ b, l = [b] ∧ b.stop = M.length)) := by
  obtain ⟨t, ht, hx', -⟩ := receive_of heap hx hf
  rcases receive_cases hx.sane heap f with ⟨-, hrej⟩ | ⟨-, -, hcase⟩
  · rcases hrej with h | h
    · exact absurd (hready.symm.trans h) Bool.false_ne_true
    · exact absurd (accepts_of hx hf) h
  · rcases hcase with ⟨-, hwhy⟩ | ⟨l, hstored, -, -, ⟨hs, heq⟩ | ⟨b, hb, ho, hlen, heq⟩⟩
    · obtain ⟨hok, hcount⟩ := hroom
      rcases hwhy with h | h
      · exact absurd (h.symm.trans hok) Bool.false_ne_true
      · omega
    · obtain rfl := Option.some.inj (heq.symm.trans ht)
      exact ⟨_, l, ht, hx', hstored, Or.inl ⟨hready, rfl, hx.sz ▸ hs⟩⟩
    · obtain rfl := Option.some.inj (heq.symm.trans ht)
      refine ⟨_, l, ht, hx', hstored, Or.inr ⟨rfl, b, hb, ?_⟩⟩
      rw [FragBucket.stop, ho, hlen, hx.sz, Nat.zero_add]

/-- An allocator that always has memory. -/
def Heap.zeros : Heap := ⟨true, fun _ => 0⟩

/-- The fragment at the `j`th multiple of `k`. -/
def pieceOf (id : MsgId) (k : ℕ) (M : List UInt8) (j : ℕ) : Frag :=
  ⟨id.seq, id.epoch, id.type, j * k, excerpt M (j * k) (min k (M.length - j * k)), M.length, true⟩

theorem sent_piece (id : MsgId) (hk : 0 < k) {j : ℕ} (hj : j * k < M.length) : Sent id k M (pieceOf id k M j) :=
  ⟨rfl, rfl, rfl, rfl, (mem_send hk).mpr ⟨j, rfl, hj, rfl⟩⟩

theorem stop_piece (id : MsgId) {j : ℕ} (hj : j * k < M.length) :
    (pieceOf id k M j).stop = min (j * k + k) M.length := by
  simp only [Frag.stop, pieceOf]
  rw [length_excerpt (by omega)]
  omega

/-- The message has one bucket, with its first `x` bytes. -/
def Front (msg : DtlsMsg) (x : ℕ) : Prop :=
  msg.ready = false ∧ ∃ b, msg.fragBucketList = [b] ∧ b.offset = 0 ∧ b.stop = x

/-- A message with all of its bytes in one bucket is complete. -/
theorem not_front_all {msg : DtlsMsg} (hx : Expects id M msg) : ¬Front msg M.length := by
  rintro ⟨hready, b, hl, ho, hs⟩
  have hopen := hx.sane.isOpen hready
  apply hopen.short (by simp [hl])
  have hbs : b.stop = b.offset + b.buf.length := rfl
  rw [hl, hx.sz]
  simp only [sizes, List.map_cons, List.map_nil, List.sum_cons, List.sum_nil]
  omega

theorem roomy_of_length {msg : DtlsMsg} (hx : Expects id M msg) (hready : msg.ready = false)
    (hlen : msg.fragBucketList.length < FRAG_POOL_SZ) : Roomy msg (Heap.zeros, f) := by
  refine ⟨rfl, ?_⟩
  rw [(hx.sane.isOpen hready).count]
  exact hlen

/-- The fragment behind the front, and at its end. -/
theorem receive_front (hk : 0 < k) {j : ℕ} {msg : DtlsMsg} (hj : j * k < M.length) (hx : Expects id M msg)
    (h : Front msg (j * k)) : ∃ t, receive msg (Heap.zeros, pieceOf id k M j) = some t ∧ Expects id M t ∧
      (t.ready = true ∨ Front t (min (j * k + k) M.length)) := by
  obtain ⟨hready, b, hl, ho, hs⟩ := h
  obtain ⟨hof, j', hat⟩ := sent_at hk (sent_piece id hk hj)
  obtain ⟨t, l, ht, hx', hstored, hcase⟩ := receive_stored hx hready hof
    (roomy_of_length hx hready (by simp [hl, FRAG_POOL_SZ]))
  rw [hl] at hstored
  obtain ⟨m, rfl, hmo, hms⟩ := stored_at_end hstored hs hat.ne
  refine ⟨t, ht, hx', ?_⟩
  rcases hcase with ⟨hr, hl', -⟩ | ⟨hr, -⟩
  · refine Or.inr ⟨hr, m, hl', hmo.trans ho, ?_⟩
    rw [hms, ← stop_piece id hj]
    rfl
  · exact Or.inl hr

/-- With the front of the message there, the fragments behind it complete it. -/
theorem run_of_front (hk : 0 < k) : ∀ (n j : ℕ) {msg : DtlsMsg}, M.length ≤ n + j * k → Expects id M msg →
    msg.ready = true ∨ Front msg (min (j * k) M.length) → ∃ (fs : List (Heap × Frag)) (t : DtlsMsg),
      (∀ p ∈ fs, (p.1.ok = true ∧ Sent id k M p.2) ∧ j * k ≤ p.2.fragOffset) ∧ run receive msg fs = some t ∧
        t.ready = true
  | 0, j, msg, hn, hx, h => by
    rw [Nat.min_eq_right (by omega)] at h
    exact ⟨[], msg, by simp, rfl, h.resolve_right (not_front_all hx)⟩
  | n + 1, j, msg, hn, hx, h => by
    rcases h with h | h
    · exact ⟨[], msg, by simp, rfl, h⟩
    · rcases Nat.lt_or_ge (j * k) M.length with hj | hj
      · rw [Nat.min_eq_left hj.le] at h
        obtain ⟨u, hu, hx', hfront⟩ := receive_front hk hj hx h
        have hsucc : (j + 1) * k = j * k + k := Nat.succ_mul j k
        obtain ⟨fs, t, hfs, ht, hready⟩ := run_of_front hk n (j + 1) (by omega) hx' (hsucc ▸ hfront)
        refine ⟨(Heap.zeros, pieceOf id k M j) :: fs, t, ?_, (run_cons receive).mpr ⟨u, hu, ht⟩, hready⟩
        intro p hp
        rcases List.mem_cons.mp hp with rfl | hp
        · exact ⟨⟨rfl, sent_piece _ hk hj⟩, le_rfl⟩
        · obtain ⟨h₁, h₂⟩ := hfs p hp
          exact ⟨h₁, by omega⟩
      · rw [Nat.min_eq_right hj] at h
        exact absurd h (not_front_all hx)

/-- The first, the fifth and the third fragment leave two buckets, and the second
of them has the fourth fragment's bytes as if it had come. -/
theorem run_to_gap (id : MsgId) (hk : 0 < k) (hM : M.length < 2 ^ 24) (h5 : 4 * k < M.length) :
    ∃ (t : DtlsMsg) (a m : FragBucket),
      run receive (dtlsMsgNew M.length) ([0, 4, 2].map fun j => (Heap.zeros, pieceOf id k M j)) = some t ∧
      Expects id M t ∧ t.ready = false ∧ t.fragBucketList = [a, m] ∧ a.offset = 0 ∧ a.stop = k ∧ m.offset = 2 * k ∧
      m.stop = min (5 * k) M.length := by
  have piece : ∀ j, j * k < M.length → (pieceOf id k M j).Of id M := fun j hj => (sent_at hk (sent_piece id hk hj)).1
  -- the first
  obtain ⟨s₁, l₁, h₁, hx₁, hst₁, hc₁⟩ := receive_stored (expects_new id hM) rfl (piece 0 (by omega))
    (roomy_of_length (expects_new id hM) rfl (by simp [dtlsMsgNew, FRAG_POOL_SZ]))
  obtain rfl := stored_nil hst₁
  have hlen₁ : (⟨(pieceOf id k M 0).fragOffset, (pieceOf id k M 0).data⟩ : FragBucket).stop = k := by
    have := stop_piece id (k := k) (M := M) (j := 0) (by omega)
    simp only [Frag.stop] at this
    simp only [FragBucket.stop]
    omega
  obtain ⟨hr₁, hl₁, -⟩ := hc₁.resolve_right (by
    rintro ⟨-, b, hb, hs⟩
    obtain ⟨rfl, -⟩ := List.cons.inj hb
    omega)
  -- the fifth
  obtain ⟨s₂, l₂, h₂, hx₂, hst₂, hc₂⟩ := receive_stored hx₁ hr₁ (piece 4 h5)
    (roomy_of_length hx₁ hr₁ (by simp [hl₁, FRAG_POOL_SZ]))
  rw [hl₁] at hst₂
  obtain rfl := stored_behind hst₂ (by rw [hlen₁]; simp only [pieceOf]; omega)
  obtain ⟨hr₂, hl₂, -⟩ := hc₂.resolve_right (by
    rintro ⟨-, b, hb, -⟩
    simp at hb)
  have hlen₂ := stop_piece id (k := k) (M := M) (j := 4) h5
  -- the third, in the gap
  obtain ⟨s₃, l₃, h₃, hx₃, hst₃, hc₃⟩ := receive_stored hx₂ hr₂ (piece 2 (by omega))
    (roomy_of_length hx₂ hr₂ (by simp [hl₂, FRAG_POOL_SZ]))
  rw [hl₂] at hst₃
  have hlen₃ := stop_piece id (k := k) (M := M) (j := 2) (by omega)
  simp only [Frag.stop] at hlen₂ hlen₃
  obtain ⟨m, rfl, hmo, hms⟩ := stored_between hst₃ (by rw [hlen₁]; simp only [pieceOf]; omega)
    (by rw [hlen₃]; simp only [pieceOf]; omega)
  obtain ⟨hr₃, hl₃, -⟩ := hc₃.resolve_right (by
    rintro ⟨-, b, hb, -⟩
    simp at hb)
  refine ⟨s₃, _, m, ?_, hx₃, hr₃, hl₃, by simp [pieceOf], hlen₁, hmo, ?_⟩
  · simp only [List.map_cons, List.map_nil, run, h₁, h₂, h₃, Option.bind_some]
  · rw [hms, FragBucket.stop, hlen₂, ← Nat.succ_mul]

/-- **Of five fragments or more one need not come**: the first, the fifth, the
third and the second, and then those from the sixth on, make the message
complete, without the fourth. -/
theorem ready_without_fourth (id : MsgId) (hk : 0 < k) (hM : M.length < 2 ^ 24) (h5 : 4 * k < M.length) :
    ∃ (fs : List (Heap × Frag)) (t : DtlsMsg), (∀ p ∈ fs, p.1.ok = true ∧ Sent id k M p.2) ∧ ¬Arrived fs (3 * k) ∧
      run receive (dtlsMsgNew M.length) fs = some t ∧ t.ready = true := by
  obtain ⟨s, a, m, hrun, hx, hr, hl, hao, has, hmo, hms⟩ := run_to_gap id hk hM h5
  have hne : m.buf ≠ [] := by
    apply List.ne_nil_of_length_pos
    have : m.stop = m.offset + m.buf.length := rfl
    omega
  have h1 : 1 * k < M.length := by omega
  obtain ⟨hof, j', hat⟩ := sent_at hk (sent_piece id hk h1)
  have hend : (pieceOf id k M 1).fragOffset + (pieceOf id k M 1).data.length = m.offset := by
    have hlen := stop_piece id (k := k) (M := M) h1
    simp only [Frag.stop] at hlen
    omega
  -- the second joins the two
  obtain ⟨u, l, hu, hx', hstored, hcase⟩ :=
    receive_stored hx hr hof (roomy_of_length hx hr (by simp [hl, FRAG_POOL_SZ]))
  rw [hl] at hstored
  obtain ⟨m', rfl, hmo', hms'⟩ := stored_joins hstored (by rw [has]; simp [pieceOf]) hend hne hat.ne
  have hfront : u.ready = true ∨ Front u (min (5 * k) M.length) := by
    rcases hcase with ⟨hr', hl', -⟩ | ⟨hr', -⟩
    · exact Or.inr ⟨hr', m', hl', hmo'.trans hao, hms'.trans hms⟩
    · exact Or.inl hr'
  obtain ⟨fs, t, hfs, ht, hready⟩ := run_of_front hk M.length 5 (by omega) hx' hfront
  refine ⟨([0, 4, 2].map fun j => (Heap.zeros, pieceOf id k M j)) ++ (Heap.zeros, pieceOf id k M 1) :: fs, t,
    ?_, ?_, ?_, hready⟩
  · intro p hp
    simp only [List.map_cons, List.map_nil, List.cons_append, List.nil_append, List.mem_cons] at hp
    rcases hp with rfl | rfl | rfl | rfl | hp
    · exact ⟨rfl, sent_piece _ hk (by omega)⟩
    · exact ⟨rfl, sent_piece _ hk h5⟩
    · exact ⟨rfl, sent_piece _ hk (by omega)⟩
    · exact ⟨rfl, sent_piece _ hk h1⟩
    · exact (hfs p hp).1
  · rintro ⟨p, hp, hc⟩
    simp only [List.map_cons, List.map_nil, List.cons_append, List.nil_append, List.mem_cons] at hp
    rcases hp with rfl | rfl | rfl | rfl | hp
    · have hlt : 3 * k < (pieceOf id k M 0).stop := hc.2
      rw [stop_piece _ (by omega)] at hlt
      omega
    · have hge : 4 * k ≤ 3 * k := hc.1
      omega
    · have hlt : 3 * k < (pieceOf id k M 2).stop := hc.2
      rw [stop_piece _ (by omega)] at hlt
      omega
    · have hlt : 3 * k < (pieceOf id k M 1).stop := hc.2
      rw [stop_piece _ (by omega)] at hlt
      omega
    · have := (hfs p hp).2
      have := hc.1
      omega
  · rw [run_append, hrun]
    exact (run_cons receive).mpr ⟨u, hu, ht⟩

/-- **Every order is reassembled if and only if there are at most four
fragments.** The fragments of a message may come in any order and more than once,
while there is memory: the message is complete when all have come and not before,
and it is then what was sent. Of five or more there is an order after which it is
taken for complete without a fragment that never came. -/
theorem reassembles_any_order_iff (id : MsgId) (M : List UInt8) (hM : M.length < 2 ^ 24) (k : ℕ) (hk : 0 < k) :
    ((∀ fs : List (Heap × Frag), (∀ p ∈ fs, p.1.ok = true ∧ Sent id k M p.2) →
      ∃ t, run receive (dtlsMsgNew M.length) fs = some t ∧
        (t.ready = true ↔ fs ≠ [] ∧ ∀ i < M.length, Arrived fs i) ∧
        (t.ready = true → t.raw = handshakeHeader id.type id.seq M.length ++ M)) ↔
      (dtls13SendFragmentedInternal k M).length ≤ 4) ∧
    (4 < (dtls13SendFragmentedInternal k M).length →
      ∃ (fs : List (Heap × Frag)) (t : DtlsMsg) (i : ℕ), (∀ p ∈ fs, p.1.ok = true ∧ Sent id k M p.2) ∧
        (i < M.length ∧ ¬Arrived fs i) ∧ run receive (dtlsMsgNew M.length) fs = some t ∧ t.ready = true) := by
  have hlong : 4 * k < M.length → ∃ (fs : List (Heap × Frag)) (t : DtlsMsg) (i : ℕ),
      (∀ p ∈ fs, p.1.ok = true ∧ Sent id k M p.2) ∧
        (i < M.length ∧ ¬Arrived fs i) ∧ run receive (dtlsMsgNew M.length) fs = some t ∧ t.ready = true := by
    intro h5
    obtain ⟨fs, t, hfs, hnot, hrun, hready⟩ := ready_without_fourth id hk hM h5
    exact ⟨fs, t, 3 * k, hfs, ⟨by omega, hnot⟩, hrun, hready⟩
  rw [← Nat.not_le, length_send_le hk]
  refine ⟨⟨fun h => ?_, fun h4 fs hfs => ?_⟩, fun h5 => hlong (Nat.lt_of_not_le h5)⟩
  · by_contra h5
    obtain ⟨fs, t, i, hfs, ⟨hi, hnot⟩, hrun, hready⟩ := hlong (Nat.lt_of_not_le h5)
    obtain ⟨t', hrun', hiff, -⟩ := h fs hfs
    obtain rfl : t = t' := Option.some.inj (hrun.symm.trans hrun')
    exact hnot ((hiff.mp hready).2 i hi)
  · exact ready_iff_all_arrived id M hM fs (fun p hp => (sent_at hk (hfs p hp).2).1) (meets_of_four hk h4 hM hfs)

/-- Three fragments, the last of them first. -/
theorem reassembles_any_order_iff_three :
    (dtls13SendFragmentedInternal 1 [1, 2, 3]).length ≤ 4 ∧
      ∃ t, run receive (dtlsMsgNew 3) ([2, 0, 1].map fun j => (Heap.zeros, pieceOf ⟨5, 2, 11⟩ 1 [1, 2, 3] j)) = some t ∧
        t.ready = true ∧ t.raw = handshakeHeader 11 5 3 ++ [1, 2, 3] := by
  have hfour : (dtls13SendFragmentedInternal 1 [1, 2, 3]).length ≤ 4 := by decide
  obtain ⟨t, ht, -, hraw⟩ := (reassembles_any_order_iff ⟨5, 2, 11⟩ [1, 2, 3] (by decide) 1 (by decide)).1.mpr hfour
    ([2, 0, 1].map fun j => (Heap.zeros, pieceOf ⟨5, 2, 11⟩ 1 [1, 2, 3] j)) (by
      intro p hp
      simp only [List.map_cons, List.map_nil, List.mem_cons, List.not_mem_nil, or_false] at hp
      rcases hp with rfl | rfl | rfl
      · exact ⟨rfl, sent_piece _ (by decide) (by decide)⟩
      · exact ⟨rfl, sent_piece _ (by decide) (by decide)⟩
      · exact ⟨rfl, sent_piece _ (by decide) (by decide)⟩)
  have hready : t.ready = true := by
    rw [← Option.some.inj ht]
    decide
  exact ⟨hfour, t, ht, hready, hraw hready⟩

end Sender

end Reassembly
end PqcDtls
