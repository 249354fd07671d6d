/-
# The replay window of the record layer

`Dtls13CheckWindow`, `Dtls13UpdateWindow` and `_DtlsUpdateWindowGTSeq`
(`internal.c`): what the record layer remembers of the records of one epoch,
the next sequence number it expects and 64 bits for the numbers before that
one. A record is processed when the check lets it pass, and the update then
notes it.

* `no_record_processed_twice`: whatever records arrive, none is processed twice.
* `record_passes_iff`: while no record is 2 ^ 32 or more ahead of the window, a
  record passes exactly when it was not processed before and no processed record
  is 64 or more numbers ahead of it.
-/
import PqcDtls.Lib.Run
import PqcDtls.Lib.Words

namespace PqcDtls
namespace Dtls13

open Lib

/-! ### The window of an epoch -/

/-- `WOLFSSL_DTLS_WINDOW_WORDS`. -/
def WINDOW_WORDS : ℕ := 2

/-- `DTLS_WORD_BITS`. -/
def WORD_BITS : ℕ := 32

/-- `DTLS_SEQ_BITS`. -/
def SEQ_BITS : ℕ := WINDOW_WORDS * WORD_BITS

abbrev Window := Vector (BitVec 32) WINDOW_WORDS

/-- `enum encrypt_side`, with the zero of a cleared slot. -/
inductive Side where
  | unset
  | encryptSideOnly
  | decryptSideOnly
  | encryptAndDecryptSide
  deriving DecidableEq, Repr

/-- `Dtls13Epoch`, without its keys. -/
structure Epoch where
  epochNumber : BitVec 64 := 0
  nextSeqNumber : BitVec 64 := 0
  nextPeerSeqNumber : BitVec 64 := 0
  window : Window := Vector.replicate WINDOW_WORDS 0
  isValid : Bool := false
  side : Side := .unset
  deriving DecidableEq, Repr

/-- One pass of the loop of `_DtlsUpdateWindowGTSeq`; `temp` carries the bits
that leave a word at its top. -/
def gtSeqStep (oldWindow : Window) (idx diff : ℕ) (st : Window × BitVec 32) (i : ℕ) : Window × BitVec 32 :=
  if i < idx then (st.1.setIfInBounds i 0, st.2)
  else
    let temp := st.2 ||| word oldWindow (i - idx) <<< diff
    (st.1.setIfInBounds i temp,
      if 0 < diff then word oldWindow (i - idx) >>> (WORD_BITS - diff) else 0)

/-- `_DtlsUpdateWindowGTSeq`; a `diff` of zero stands for an overflow. -/
def dtlsUpdateWindowGTSeq (diff : BitVec 32) (window : Window) : Window :=
  let shifted :=
    if diff = 0 ∨ SEQ_BITS ≤ diff.toNat then Vector.replicate WINDOW_WORDS 0
    else
      ((List.range WINDOW_WORDS).foldl
        (gtSeqStep window (diff.toNat / WORD_BITS) (diff.toNat % WORD_BITS)) (window, 0)).1
  shifted.setIfInBounds 0 (word shifted 0 ||| 1)

/-- `Dtls13CheckWindow` for the epoch the record was decrypted in. -/
def dtls13CheckWindow (e : Epoch) (seq : BitVec 64) : Bool :=
  if e.nextPeerSeqNumber ≤ seq then true
  else
    let diff64 := e.nextPeerSeqNumber - seq
    if SEQ_BITS < diff64.toNat then false
    else
      let diff := diff64.setWidth 32 - 1
      (word e.window (diff.toNat / WORD_BITS) &&& 1#32 <<< (diff.toNat % WORD_BITS)) == 0

/-- `Dtls13UpdateWindow` on the epoch of the record; `none` is its
`BAD_STATE_E`. -/
def dtls13UpdateWindow (e : Epoch) (seq : BitVec 64) : Option Epoch :=
  if seq < e.nextPeerSeqNumber then
    let diff := (e.nextPeerSeqNumber - seq - 1).setWidth 32
    let wordIndex := diff.toNat / WORD_BITS
    let wordOffset := diff.toNat % WORD_BITS
    if WINDOW_WORDS ≤ wordIndex then none
    else some { e with window := e.window.setIfInBounds wordIndex (word e.window wordIndex ||| 1#32 <<< wordOffset) }
  else
    let diff64 := seq - e.nextPeerSeqNumber + 1
    some { e with window := dtlsUpdateWindowGTSeq (diff64.setWidth 32) e.window, nextPeerSeqNumber := seq + 1 }

/-! ### What the update does to the window -/

/-- What is carried into word `m` of the shifted window. -/
def carry (old : Window) (idx diff m : ℕ) : BitVec 32 :=
  if idx < m ∧ 0 < diff then word old (m - 1 - idx) >>> (WORD_BITS - diff) else 0

/-- The loop after `m` passes: the words below `m` are shifted, the others are as
they were, and the carry is that into word `m`. -/
theorem gtSeqStep_foldl (old : Window) (idx diff : ℕ) : ∀ m ≤ WINDOW_WORDS,
    (∀ j, word ((List.range m).foldl (gtSeqStep old idx diff) (old, 0)).1 j =
      if j < m then (if j < idx then 0 else carry old idx diff j ||| word old (j - idx) <<< diff)
      else word old j) ∧
    ((List.range m).foldl (gtSeqStep old idx diff) (old, 0)).2 = carry old idx diff m := by
  intro m
  induction m with
  | zero => simp [carry]
  | succ m ih =>
    intro hm
    obtain ⟨hw, hc⟩ := ih (by omega)
    rw [List.range_succ, List.foldl_append, List.foldl_cons, List.foldl_nil]
    generalize (List.range m).foldl (gtSeqStep old idx diff) (old, 0) = st at hw hc ⊢
    unfold gtSeqStep
    split
    · next hi =>
      refine ⟨fun j => ?_, ?_⟩
      · rw [word_set, hw j]
        rcases Nat.lt_trichotomy j m with h | rfl | h
        · simp [Nat.ne_of_gt h, h, Nat.lt_succ_of_lt h]
        · simp [hi, show j < WINDOW_WORDS by omega]
        · simp [Nat.ne_of_lt h, Nat.not_lt.mpr h.le, show ¬ j < m + 1 by omega]
      · rw [hc]
        simp [carry, Nat.not_lt.mpr hi.le, show ¬ idx < m + 1 by omega]
    · next hi =>
      refine ⟨fun j => ?_, ?_⟩
      · rw [word_set, hw j, hc]
        rcases Nat.lt_trichotomy j m with h | rfl | h
        · simp [Nat.ne_of_gt h, h, Nat.lt_succ_of_lt h]
        · simp [hi, show j < WINDOW_WORDS by omega]
        · simp [Nat.ne_of_lt h, Nat.not_lt.mpr h.le, show ¬ j < m + 1 by omega]
      · simp [carry, show idx < m + 1 by omega]

/-- The loop shifts the window up by `diff` bits. -/
theorem bit_gtSeq_loop (old : Window) {diff k : ℕ} (hk : k < SEQ_BITS) :
    bit ((List.range WINDOW_WORDS).foldl (gtSeqStep old (diff / WORD_BITS) (diff % WORD_BITS)) (old, 0)).1 k =
      (decide (diff ≤ k) && bit old (k - diff)) := by
  have hdm : WORD_BITS * (diff / WORD_BITS) + diff % WORD_BITS = diff := Nat.div_add_mod diff WORD_BITS
  have hkw : k / 32 < WINDOW_WORDS := Nat.div_lt_of_lt_mul (by simpa [SEQ_BITS, WORD_BITS, Nat.mul_comm] using hk)
  have h := bit_shift (old : Window) ((List.range WINDOW_WORDS).foldl
    (gtSeqStep old (diff / WORD_BITS) (diff % WORD_BITS)) (old, 0)).1 (i := diff / WORD_BITS)
    (d := diff % WORD_BITS) (k := k) (by decide) (Nat.mod_lt _ (by decide)) (by
      rw [(gtSeqStep_foldl old _ _ WINDOW_WORDS le_rfl).1, if_pos hkw]
      rfl)
  rw [h]
  exact congrArg (fun d => decide (d ≤ k) && bit old (k - d)) hdm

/-- The window after a record that is `diff` numbers past the newest one:
everything moves down by `diff`, and the record itself is bit 0. -/
theorem bit_dtlsUpdateWindowGTSeq (diff : BitVec 32) (window : Window) {k : ℕ} (hk : k < SEQ_BITS) :
    bit (dtlsUpdateWindowGTSeq diff window) k =
      (decide (k = 0) || (decide (0 < diff.toNat) && decide (diff.toNat ≤ k) && bit window (k - diff.toNat))) := by
  have hset := fun ws : Window => bit_setBit ws (j := 0) (k := k) (by decide)
  have hset0 : ∀ ws : Window, bit (ws.setIfInBounds 0 (word ws 0 ||| 1)) k = (bit ws k || decide (k = 0)) := hset
  unfold dtlsUpdateWindowGTSeq
  rw [hset0, Bool.or_comm]
  congr 1
  split
  · next h =>
    rw [bit_replicate]
    rcases h with h | h
    · simp [h]
    · simp [show ¬ diff.toNat ≤ k by omega]
  · next h =>
    have hpos : 0 < diff.toNat := by
      have hne : diff ≠ 0 := fun h0 => h (Or.inl h0)
      have : diff.toNat ≠ 0 := fun h0 => hne (BitVec.eq_of_toNat_eq h0)
      omega
    rw [bit_gtSeq_loop window hk]
    simp [hpos]

/-! ### The check and the update, in numbers -/

theorem and_twoPow_eq_zero (x : BitVec 32) {r : ℕ} (hr : r < WORD_BITS) :
    ((x &&& 1#32 <<< r) == 0) = !x.getLsbD r := by
  have hr32 : r < 32 := hr
  have hbit : ∀ i, (x &&& 1#32 <<< r).getLsbD i = (x.getLsbD r && decide (i = r)) := by
    intro i
    rw [BitVec.getLsbD_and, BitVec.getLsbD_shiftLeft, BitVec.getLsbD_one]
    by_cases h : i = r
    · simp [h, hr32]
    · have : i < r ∨ i - r ≠ 0 := by omega
      rcases this with h' | h' <;> simp [h, h']
  cases hx : x.getLsbD r with
  | false =>
    have h0 : x &&& 1#32 <<< r = 0 := by
      apply BitVec.eq_of_getLsbD_eq
      intro i _
      simp [hbit, hx]
    simp [h0]
  | true =>
    have hne : x &&& 1#32 <<< r ≠ 0 := by
      intro h0
      have := hbit r
      simp [h0, hx] at this
    simpa using hne

/-- A record passes when it is past the window, or in it and its bit is clear. -/
theorem checkWindow_iff (e : Epoch) (seq : BitVec 64) :
    dtls13CheckWindow e seq = true ↔
      e.nextPeerSeqNumber.toNat ≤ seq.toNat ∨
        (e.nextPeerSeqNumber.toNat - seq.toNat ≤ SEQ_BITS ∧
          bit e.window (e.nextPeerSeqNumber.toNat - seq.toNat - 1) = false) := by
  unfold dtls13CheckWindow
  split
  · next h => simp [BitVec.le_def.mp h]
  · next h =>
    rw [BitVec.le_def] at h
    have hlt : seq.toNat < e.nextPeerSeqNumber.toNat := Nat.not_le.mp h
    have hd : (e.nextPeerSeqNumber - seq).toNat = e.nextPeerSeqNumber.toNat - seq.toNat :=
      BitVec.toNat_sub_of_le (BitVec.le_def.mpr hlt.le)
    simp only [hd, h, false_or]
    split
    · next hw => simp [Nat.not_le.mpr hw]
    · next hw =>
      have hle : e.nextPeerSeqNumber.toNat - seq.toNat ≤ 64 := Nat.not_lt.mp hw
      have h32 : ((e.nextPeerSeqNumber - seq).setWidth 32 - 1).toNat =
          e.nextPeerSeqNumber.toNat - seq.toNat - 1 := by
        rw [BitVec.toNat_sub_of_le, BitVec.toNat_setWidth, hd, Nat.mod_eq_of_lt (by omega)]
        · rfl
        · rw [BitVec.le_def, BitVec.toNat_setWidth, hd, Nat.mod_eq_of_lt (by omega)]
          show 1 ≤ _
          omega
      rw [h32, and_twoPow_eq_zero _ (Nat.mod_lt _ (by decide))]
      simp only [Bool.not_eq_true', Nat.not_lt.mp hw, true_and]
      rfl

/-- The update of a record that is in the window. -/
theorem updateWindow_lt {e : Epoch} {seq : BitVec 64} (hlt : seq.toNat < e.nextPeerSeqNumber.toNat)
    (hw : e.nextPeerSeqNumber.toNat - seq.toNat ≤ SEQ_BITS) :
    ∃ e', dtls13UpdateWindow e seq = some e' ∧ e'.nextPeerSeqNumber = e.nextPeerSeqNumber ∧
      ∀ k, bit e'.window k =
        (bit e.window k || decide (k = e.nextPeerSeqNumber.toNat - seq.toNat - 1)) := by
  have hle : e.nextPeerSeqNumber.toNat - seq.toNat ≤ 64 := hw
  have hd : (e.nextPeerSeqNumber - seq).toNat = e.nextPeerSeqNumber.toNat - seq.toNat :=
    BitVec.toNat_sub_of_le (BitVec.le_def.mpr hlt.le)
  have h32 : ((e.nextPeerSeqNumber - seq - 1).setWidth 32).toNat =
      e.nextPeerSeqNumber.toNat - seq.toNat - 1 := by
    rw [BitVec.toNat_setWidth, BitVec.toNat_sub_of_le, hd]
    · exact Nat.mod_eq_of_lt (by show _ - 1 < _; omega)
    · rw [BitVec.le_def, hd]
      show 1 ≤ _
      omega
  have hidx : ¬ WINDOW_WORDS ≤ (e.nextPeerSeqNumber.toNat - seq.toNat - 1) / WORD_BITS := by
    rw [Nat.not_le]
    exact Nat.div_lt_of_lt_mul (by show _ < 32 * 2; omega)
  unfold dtls13UpdateWindow
  rw [if_pos (BitVec.lt_def.mpr hlt)]
  simp only [h32, hidx, if_false]
  refine ⟨_, rfl, rfl, fun k => ?_⟩
  exact bit_setBit _ (by show _ < 32 * 2; omega)

/-- The update of a record past the window. -/
theorem updateWindow_ge {e : Epoch} {seq : BitVec 64} (hge : e.nextPeerSeqNumber.toNat ≤ seq.toNat)
    (hlast : seq.toNat + 1 < 2 ^ 64) :
    ∃ e', dtls13UpdateWindow e seq = some e' ∧ e'.nextPeerSeqNumber.toNat = seq.toNat + 1 ∧
      ∀ k < SEQ_BITS, bit e'.window k =
        (decide (k = 0) ||
          (decide (0 < (seq.toNat - e.nextPeerSeqNumber.toNat + 1) % 2 ^ 32) &&
            decide ((seq.toNat - e.nextPeerSeqNumber.toNat + 1) % 2 ^ 32 ≤ k) &&
            bit e.window (k - (seq.toNat - e.nextPeerSeqNumber.toNat + 1) % 2 ^ 32))) := by
  have hnot : ¬ seq < e.nextPeerSeqNumber := by
    rw [BitVec.lt_def]
    omega
  have hd : ((seq - e.nextPeerSeqNumber + 1).setWidth 32).toNat =
      (seq.toNat - e.nextPeerSeqNumber.toNat + 1) % 2 ^ 32 := by
    rw [BitVec.toNat_setWidth, BitVec.toNat_add, BitVec.toNat_sub_of_le (BitVec.le_def.mpr hge)]
    show (_ + 1) % 2 ^ 64 % 2 ^ 32 = _
    rw [Nat.mod_eq_of_lt (by omega : seq.toNat - e.nextPeerSeqNumber.toNat + 1 < 2 ^ 64)]
  have hn : (seq + 1).toNat = seq.toNat + 1 := by
    rw [BitVec.toNat_add]
    exact Nat.mod_eq_of_lt hlast
  unfold dtls13UpdateWindow
  rw [if_neg hnot]
  refine ⟨_, rfl, hn, fun k hk => ?_⟩
  rw [bit_dtlsUpdateWindowGTSeq _ _ hk, hd]

/-! ### Records one after another -/

/-- An epoch with the records that were processed in it, the last one first. -/
structure Rx where
  epoch : Epoch
  processed : List (BitVec 64)

/-- `runProcessingOneRecord` on a decrypted record of the epoch, in the stateful
parsing (`dtlsStateful`), which a client is in from its start: before it a server
checks the window and does not update it. -/
def processRecord (r : Rx) (seq : BitVec 64) : Rx :=
  if dtls13CheckWindow r.epoch seq then
    match dtls13UpdateWindow r.epoch seq with
    | some e => ⟨e, seq :: r.processed⟩
    | none => r
  else r

/-- What one record does. -/
theorem processRecord_cases (r : Rx) {seq : BitVec 64} (hlast : seq.toNat + 1 < 2 ^ 64) :
    (dtls13CheckWindow r.epoch seq = false ∧ processRecord r seq = r) ∨
    (dtls13CheckWindow r.epoch seq = true ∧ ∃ e', processRecord r seq = ⟨e', seq :: r.processed⟩ ∧
      ((seq.toNat < r.epoch.nextPeerSeqNumber.toNat ∧
          e'.nextPeerSeqNumber = r.epoch.nextPeerSeqNumber ∧
          ∀ k, bit e'.window k =
            (bit r.epoch.window k || decide (k = r.epoch.nextPeerSeqNumber.toNat - seq.toNat - 1))) ∨
        (r.epoch.nextPeerSeqNumber.toNat ≤ seq.toNat ∧ e'.nextPeerSeqNumber.toNat = seq.toNat + 1 ∧
          ∀ k < SEQ_BITS, bit e'.window k =
            (decide (k = 0) ||
              (decide (0 < (seq.toNat - r.epoch.nextPeerSeqNumber.toNat + 1) % 2 ^ 32) &&
                decide ((seq.toNat - r.epoch.nextPeerSeqNumber.toNat + 1) % 2 ^ 32 ≤ k) &&
                bit r.epoch.window (k - (seq.toNat - r.epoch.nextPeerSeqNumber.toNat + 1) % 2 ^ 32)))))) := by
  unfold processRecord
  cases hc : dtls13CheckWindow r.epoch seq with
  | false => simp
  | true =>
    refine Or.inr ⟨rfl, ?_⟩
    rcases Nat.lt_or_ge seq.toNat r.epoch.nextPeerSeqNumber.toNat with hlt | hge
    · have hw : r.epoch.nextPeerSeqNumber.toNat - seq.toNat ≤ SEQ_BITS := by
        rcases (checkWindow_iff r.epoch seq).mp hc with hge | ⟨hw, _⟩
        · omega
        · exact hw
      obtain ⟨e', he, hn, hbits⟩ := updateWindow_lt hlt hw
      exact ⟨e', by simp [he], Or.inl ⟨hlt, hn, hbits⟩⟩
    · obtain ⟨e', he, hn, hbits⟩ := updateWindow_ge hge hlast
      exact ⟨e', by simp [he], Or.inr ⟨hge, hn, hbits⟩⟩

/-- The window remembers the processed records: each is before the next number,
and its bit is set while the window still reaches it. -/
def Remembers (r : Rx) : Prop :=
  ∀ s ∈ r.processed, s.toNat < r.epoch.nextPeerSeqNumber.toNat ∧
    (r.epoch.nextPeerSeqNumber.toNat - s.toNat ≤ SEQ_BITS →
      bit r.epoch.window (r.epoch.nextPeerSeqNumber.toNat - s.toNat - 1) = true)

/-- The window holds nothing else: a set bit is a processed record, and the next
number follows the newest one. -/
structure OnlyRemembers (r : Rx) : Prop where
  bits : ∀ s : BitVec 64, s.toNat < r.epoch.nextPeerSeqNumber.toNat →
    r.epoch.nextPeerSeqNumber.toNat - s.toNat ≤ SEQ_BITS →
      bit r.epoch.window (r.epoch.nextPeerSeqNumber.toNat - s.toNat - 1) = true → s ∈ r.processed
  next : r.epoch.nextPeerSeqNumber = 0 ∨
    ∃ p ∈ r.processed, p.toNat + 1 = r.epoch.nextPeerSeqNumber.toNat

theorem Remembers.not_mem {r : Rx} (h : Remembers r) {seq : BitVec 64}
    (hc : dtls13CheckWindow r.epoch seq = true) : seq ∉ r.processed := by
  intro hm
  obtain ⟨hlt, hbit⟩ := h seq hm
  rcases (checkWindow_iff r.epoch seq).mp hc with hge | ⟨hw, hb⟩
  · omega
  · simp [hbit hw] at hb

/-- Processing a record keeps what the window remembers. -/
theorem Remembers.step {r : Rx} (h : Remembers r) {seq : BitVec 64} (hlast : seq.toNat + 1 < 2 ^ 64) :
    Remembers (processRecord r seq) := by
  rcases processRecord_cases r hlast with
    ⟨_, heq⟩ | ⟨_, e', heq, ⟨hlt, hn, hbits⟩ | ⟨hge, hn, hbits⟩⟩ <;> rw [heq]
  · exact h
  · intro s hs
    rw [hn]
    rcases List.mem_cons.mp hs with rfl | hs
    · exact ⟨hlt, fun _ => by simp [hbits]⟩
    · exact ⟨(h s hs).1, fun hin => by simp [hbits, (h s hs).2 hin]⟩
  · intro s hs
    rw [hn]
    rcases List.mem_cons.mp hs with rfl | hs
    · refine ⟨Nat.lt_succ_self _, fun _ => ?_⟩
      have h0 : s.toNat + 1 - s.toNat - 1 = 0 := by omega
      rw [h0, hbits 0 (by decide)]
      rfl
    · -- an older record: either the window still reaches it, and its bit moved, or it is too old
      obtain ⟨hs1, hs2⟩ := h s hs
      refine ⟨by omega, fun hin => ?_⟩
      have hin64 : seq.toNat + 1 - s.toNat ≤ 64 := hin
      have hmod : (seq.toNat - r.epoch.nextPeerSeqNumber.toNat + 1) % 2 ^ 32 =
          seq.toNat - r.epoch.nextPeerSeqNumber.toNat + 1 := Nat.mod_eq_of_lt (by omega)
      have hold := hs2 (by show _ ≤ 64; omega)
      rw [hbits _ (by show _ < 64; omega), hmod]
      have hk : seq.toNat + 1 - s.toNat - 1 - (seq.toNat - r.epoch.nextPeerSeqNumber.toNat + 1) =
          r.epoch.nextPeerSeqNumber.toNat - s.toNat - 1 := by omega
      have hle : seq.toNat - r.epoch.nextPeerSeqNumber.toNat + 1 ≤ seq.toNat + 1 - s.toNat - 1 := by omega
      simp [hk, hold, hle]

/-- Processing a record that is less than 2 ^ 32 ahead adds nothing but it. -/
theorem OnlyRemembers.step {r : Rx} (h : OnlyRemembers r) {seq : BitVec 64} (hlast : seq.toNat + 1 < 2 ^ 64)
    (hgap : seq.toNat < r.epoch.nextPeerSeqNumber.toNat + 2 ^ 32) : OnlyRemembers (processRecord r seq) := by
  rcases processRecord_cases r hlast with
    ⟨_, heq⟩ | ⟨_, e', heq, ⟨hlt, hn, hbits⟩ | ⟨hge, hn, hbits⟩⟩ <;> rw [heq]
  · exact h
  · refine ⟨fun s hs hin hb => ?_, ?_⟩
    · simp only [hn] at hs hin hb
      rw [hbits, Bool.or_eq_true, decide_eq_true_eq] at hb
      rcases hb with hb | hb
      · exact List.mem_cons_of_mem _ (h.bits s hs hin hb)
      · have : s = seq := BitVec.eq_of_toNat_eq (by omega)
        simp [this]
    · simp only [hn]
      exact h.next.imp_right fun ⟨p, hp, hpn⟩ => ⟨p, List.mem_cons_of_mem _ hp, hpn⟩
  · refine ⟨fun s hs hin hb => ?_, Or.inr ⟨seq, List.mem_cons_self, hn.symm⟩⟩
    simp only [hn] at hs hin hb
    rw [hbits _ (by omega)] at hb
    simp only [Bool.or_eq_true, Bool.and_eq_true, decide_eq_true_eq] at hb
    have hin64 : seq.toNat + 1 - s.toNat ≤ 64 := hin
    rcases hb with hb | ⟨⟨hpos, hle⟩, hb⟩
    · have : s = seq := BitVec.eq_of_toNat_eq (by omega)
      simp [this]
    · -- a jump of 2 ^ 32 - 1 would be a shift by zero, which clears the window
      have hmod : (seq.toNat - r.epoch.nextPeerSeqNumber.toNat + 1) % 2 ^ 32 =
          seq.toNat - r.epoch.nextPeerSeqNumber.toNat + 1 := by omega
      rw [hmod] at hle hb
      have hk : seq.toNat + 1 - s.toNat - 1 - (seq.toNat - r.epoch.nextPeerSeqNumber.toNat + 1) =
          r.epoch.nextPeerSeqNumber.toNat - s.toNat - 1 := by omega
      rw [hk] at hb
      exact List.mem_cons_of_mem _ (h.bits s (by omega) (by show _ ≤ 64; omega) hb)

/-- A window that remembers the processed records and nothing else lets a record
pass exactly when it is new and at most 63 numbers behind the newest one. -/
theorem check_iff_of_remembers {r : Rx} (h : Remembers r) (ho : OnlyRemembers r) (seq : BitVec 64) :
    dtls13CheckWindow r.epoch seq = true ↔
      seq ∉ r.processed ∧ ∀ p ∈ r.processed, p.toNat < seq.toNat + SEQ_BITS := by
  constructor
  · intro hc
    refine ⟨h.not_mem hc, fun p hp => ?_⟩
    have hpn := (h p hp).1
    rcases (checkWindow_iff r.epoch seq).mp hc with hge | ⟨hw, _⟩ <;> omega
  · rintro ⟨hnew, hnear⟩
    rw [checkWindow_iff]
    rcases Nat.lt_or_ge seq.toNat r.epoch.nextPeerSeqNumber.toNat with hlt | hge
    · have hw : r.epoch.nextPeerSeqNumber.toNat - seq.toNat ≤ SEQ_BITS := by
        rcases ho.next with h0 | ⟨p, hp, hpn⟩
        · simp [h0] at hlt
        · have := hnear p hp
          omega
      refine Or.inr ⟨hw, ?_⟩
      by_contra hb
      rw [Bool.not_eq_false] at hb
      exact hnew (ho.bits seq hlt hw hb)
    · exact Or.inl hge

/-! ### Every run of the record layer -/

/-- The records keep off the last sequence number, after which the counter would
start again, and less than 2 ^ 32 ahead of the number expected next. -/
def NotFar (r : Rx) (seq : BitVec 64) : Prop :=
  seq.toNat + 1 < 2 ^ 64 ∧ seq.toNat < r.epoch.nextPeerSeqNumber.toNat + 2 ^ 32

instance (r : Rx) (seq : BitVec 64) : Decidable (NotFar r seq) := by
  unfold NotFar
  infer_instance

theorem toNat_lt_of_ne_allOnes {q : BitVec 64} (h : q ≠ BitVec.allOnes 64) : q.toNat + 1 < 2 ^ 64 := by
  have hne : q.toNat ≠ 2 ^ 64 - 1 := fun h0 => h (BitVec.eq_of_toNat_eq (by simpa using h0))
  have := q.isLt
  omega

/-- Whatever an epoch's window held before, no record goes through it twice. -/
theorem remembers_run (e : Epoch) (seqs : List (BitVec 64)) (h : ∀ s ∈ seqs, s ≠ BitVec.allOnes 64) :
    Remembers (seqs.foldl processRecord ⟨e, []⟩) ∧ (seqs.foldl processRecord ⟨e, []⟩).processed.Nodup := by
  induction seqs using List.reverseRecOn with
  | nil => exact ⟨by simp [Remembers], by simp⟩
  | append_singleton seqs s ih =>
    obtain ⟨hr, hnd⟩ := ih fun s' hs' => h s' (by simp [hs'])
    have hs := toNat_lt_of_ne_allOnes (h s (by simp))
    rw [List.foldl_append, List.foldl_cons, List.foldl_nil]
    refine ⟨hr.step hs, ?_⟩
    rcases processRecord_cases (seqs.foldl processRecord ⟨e, []⟩) hs with ⟨_, heq⟩ | ⟨hc, e', heq, _⟩ <;> rw [heq]
    · exact hnd
    · exact List.nodup_cons.mpr ⟨hr.not_mem hc, hnd⟩

/-- From a fresh epoch, with no record too far ahead, the window is exact. -/
theorem onlyRemembers_run {e : Epoch} (hn : e.nextPeerSeqNumber = 0) {seqs : List (BitVec 64)}
    (hm : Meets (fun r s => some (processRecord r s)) NotFar ⟨e, []⟩ seqs) :
    Remembers (seqs.foldl processRecord ⟨e, []⟩) ∧ OnlyRemembers (seqs.foldl processRecord ⟨e, []⟩) := by
  apply run_invariant_of_meets (fun r s => some (processRecord r s))
    (I := fun r => Remembers r ∧ OnlyRemembers r) ?_ ⟨e, []⟩ seqs _ ?_ hm (run_some _ _ _)
  · intro r s t hr hok hstep
    obtain rfl := Option.some.inj hstep
    exact ⟨hr.1.step hok.1, hr.2.step hok.1 hok.2⟩
  · refine ⟨by simp [Remembers], fun s hs => ?_, Or.inl hn⟩
    simp [hn] at hs

/-- **No record is processed twice**, whatever records of the epoch arrive, in
whatever order and how often: as long as the last sequence number is not among
them. -/
theorem no_record_processed_twice (e : Epoch) (seqs : List (BitVec 64)) (h : ∀ s ∈ seqs, s ≠ BitVec.allOnes 64) :
    (seqs.foldl processRecord ⟨e, []⟩).processed.Nodup :=
  (remembers_run e seqs h).2

theorem no_record_processed_twice_reordered :
    ([7, 3, 7, 90, 3, 89].foldl processRecord ⟨{}, []⟩).processed.Nodup :=
  no_record_processed_twice {} [7, 3, 7, 90, 3, 89] (by simp)

/-- **The window is exact**: from a fresh epoch, with no record 2 ^ 32 or more
ahead of the number expected next and none of the last number, a record passes the
check if and only if it was not processed before and no processed record is 64 or
more numbers ahead of it. -/
theorem record_passes_iff (e : Epoch) (hn : e.nextPeerSeqNumber = 0) (seqs : List (BitVec 64))
    (hm : Meets (fun r s => some (processRecord r s)) NotFar ⟨e, []⟩ seqs) (seq : BitVec 64) :
    dtls13CheckWindow (seqs.foldl processRecord ⟨e, []⟩).epoch seq = true ↔
      seq ∉ (seqs.foldl processRecord ⟨e, []⟩).processed ∧
        ∀ p ∈ (seqs.foldl processRecord ⟨e, []⟩).processed, p.toNat < seq.toNat + SEQ_BITS := by
  obtain ⟨hr, ho⟩ := onlyRemembers_run hn hm
  exact check_iff_of_remembers hr ho seq

theorem record_passes_iff_reordered :
    dtls13CheckWindow ([7, 3, 7, 90].foldl processRecord ⟨{}, []⟩).epoch 26 = false ∧
      (¬ ((26 : BitVec 64) ∉ ([7, 3, 7, 90].foldl processRecord ⟨{}, []⟩).processed ∧
        ∀ p ∈ ([7, 3, 7, 90].foldl processRecord ⟨{}, []⟩).processed,
          p.toNat < (26 : BitVec 64).toNat + SEQ_BITS)) := by
  have h := record_passes_iff {} rfl [7, 3, 7, 90] (by decide) 26
  have hc : dtls13CheckWindow ([7, 3, 7, 90].foldl processRecord ⟨{}, []⟩).epoch 26 = false := by decide
  exact ⟨hc, fun hp => Bool.false_ne_true (hc.symm.trans (h.mpr hp))⟩

/-- Past a jump of 2 ^ 32 the shift is cut to 32 bits: record 2 ^ 32 + 7, never
seen, is taken for one that was. -/
example : dtls13CheckWindow ([7, 2 ^ 32 + 8].foldl processRecord ⟨{}, []⟩).epoch (2 ^ 32 + 7) = false := by
  decide

end Dtls13
end PqcDtls
