/-
# The epochs of a connection

The table of four epochs of `dtls13.c`: finding an epoch, making one
(`Dtls13NewEpoch`, which evicts another when the table is full), pointing the
two directions at one (`Dtls13SetEpochKeys`), and guessing one from the two bits
that a record header carries (`Dtls13ReconstructEpochNumber`).

Every way to make an epoch is one of two (`newEpoch_cases`): the epoch was there,
and keeps its numbers and its window, or it takes a slot that was free or was
given up, and starts fresh. The current epochs of the two directions are never
given up. What holds of every epoch of the table (`Tidy`) is kept by making epochs
and by using one.
-/
import PqcDtls.Replay

namespace PqcDtls
namespace Dtls13

open Lib

/-- `DTLS13_EPOCH_SIZE`. -/
abbrev EPOCH_SIZE : ℕ := 4

abbrev Slot := Fin EPOCH_SIZE

/-- The part of `WOLFSSL` that the epochs live in. -/
structure Ssl where
  dtls13Epochs : Slot → Epoch
  dtls13Epoch : BitVec 64
  dtls13PeerEpoch : BitVec 64
  dtls13EncryptEpoch : Option Slot
  dtls13DecryptEpoch : Option Slot
  handShakeDone : Bool

/-- The epoch table that `InitSSL` sets up: epoch 0, for both directions. -/
def Ssl.init : Ssl where
  dtls13Epochs i := if i = 0 then { isValid := true, side := .encryptAndDecryptSide } else {}
  dtls13Epoch := 0
  dtls13PeerEpoch := 0
  dtls13EncryptEpoch := some 0
  dtls13DecryptEpoch := some 0
  handShakeDone := false

/-- The same epoch but for the side it may be used on. -/
def Epoch.SameBut (e e' : Epoch) : Prop := e' = { e with side := e'.side }

theorem Epoch.SameBut.rfl {e : Epoch} : Epoch.SameBut e e := Eq.refl e

theorem Epoch.SameBut.trans {e e' e'' : Epoch} (h : e.SameBut e') (h' : e'.SameBut e'') : e.SameBut e'' := by
  unfold Epoch.SameBut at h h' ⊢
  rw [h', h]

section SameBut

variable {e e' : Epoch} (h : e.SameBut e')

include h

theorem Epoch.SameBut.isValid : e'.isValid = e.isValid := by rw [h]
theorem Epoch.SameBut.epochNumber : e'.epochNumber = e.epochNumber := by rw [h]
theorem Epoch.SameBut.nextSeqNumber : e'.nextSeqNumber = e.nextSeqNumber := by rw [h]
theorem Epoch.SameBut.nextPeerSeqNumber : e'.nextPeerSeqNumber = e.nextPeerSeqNumber := by rw [h]
theorem Epoch.SameBut.window : e'.window = e.window := by rw [h]

end SameBut

/-! ### Finding and making epochs -/

/-- `Dtls13GetEpoch`. -/
def dtls13GetEpoch (ssl : Ssl) (epochNumber : BitVec 64) : Option Slot :=
  (List.finRange EPOCH_SIZE).find? fun i =>
    (ssl.dtls13Epochs i).epochNumber == epochNumber && (ssl.dtls13Epochs i).isValid

/-- `Dtls13SetOlderEpochSide`. -/
def dtls13SetOlderEpochSide (ssl : Ssl) (epochNumber : BitVec 64) (side : Side) : Ssl :=
  { ssl with dtls13Epochs := fun i =>
      let e := ssl.dtls13Epochs i
      if e.isValid ∧ e.epochNumber < epochNumber then { e with side := side } else e }

/-- The loop of `Dtls13NewEpochSlot`: the first free slot, or else the last one
that holds neither current epoch (`oldestNumber` is never lowered, so the last
one found stays). -/
def newEpochSlotLoop (ssl : Ssl) : List Slot → Option Slot → Option (Slot × Bool)
  | [], oldest => oldest.map (·, true)
  | i :: is, oldest =>
    let e := ssl.dtls13Epochs i
    if !e.isValid then some (i, false)
    else if e.epochNumber ≠ ssl.dtls13Epoch ∧ e.epochNumber ≠ ssl.dtls13PeerEpoch ∧
        e.epochNumber < BitVec.allOnes 64 then newEpochSlotLoop ssl is (some i)
    else newEpochSlotLoop ssl is oldest

/-- `Dtls13NewEpochSlot`: a slot for a new epoch, cleared if it held another. -/
def dtls13NewEpochSlot (ssl : Ssl) : Option (Slot × Ssl) :=
  (newEpochSlotLoop ssl (List.finRange EPOCH_SIZE) none).map fun (i, evicted) =>
    (i, if evicted then { ssl with dtls13Epochs := Function.update ssl.dtls13Epochs i {} } else ssl)

/-- What `Dtls13NewEpoch` notes in the epoch's own slot. -/
def markSlot (e : Epoch) (epochNumber : BitVec 64) (side : Side) : Epoch :=
  if !e.isValid then { e with epochNumber := epochNumber, isValid := true, side := side }
  else if e.side ≠ side then { e with side := .encryptAndDecryptSide }
  else e

/-- `Dtls13NewEpoch` from the choice of the slot on. -/
def fillSlot (ssl : Ssl) (i : Slot) (epochNumber : BitVec 64) (side : Side) : Ssl :=
  let e := markSlot (ssl.dtls13Epochs i) epochNumber side
  let ssl := { ssl with dtls13Epochs := Function.update ssl.dtls13Epochs i e }
  if ssl.handShakeDone ∧ (e.side = .encryptAndDecryptSide ∨ e.side = .decryptSideOnly) then
    dtls13SetOlderEpochSide ssl (epochNumber - 1) .encryptSideOnly
  else ssl

/-- `Dtls13NewEpoch`; `none` is `BAD_STATE_E`. -/
def dtls13NewEpoch (ssl : Ssl) (epochNumber : BitVec 64) (side : Side) : Option Ssl :=
  match dtls13GetEpoch ssl epochNumber with
  | some i => some (fillSlot ssl i epochNumber side)
  | none => (dtls13NewEpochSlot ssl).map fun (i, ssl) => fillSlot ssl i epochNumber side

/-- `Dtls13SetEpochKeys`, without the copying of the keys; `none` is
`BAD_STATE_E`. -/
def dtls13SetEpochKeys (ssl : Ssl) (epochNumber : BitVec 64) (side : Side) : Option Ssl :=
  match dtls13GetEpoch ssl epochNumber with
  | none => none
  | some i =>
    if (ssl.dtls13Epochs i).side ≠ .encryptAndDecryptSide ∧ (ssl.dtls13Epochs i).side ≠ side then none
    else some
      { ssl with
        dtls13EncryptEpoch :=
          if side = .encryptSideOnly ∨ side = .encryptAndDecryptSide then some i else ssl.dtls13EncryptEpoch
        dtls13DecryptEpoch :=
          if side = .decryptSideOnly ∨ side = .encryptAndDecryptSide then some i else ssl.dtls13DecryptEpoch }

/-- `Dtls13GetEpochBits`. -/
def dtls13GetEpochBits (epoch : BitVec 64) : BitVec 2 := epoch.setWidth 2

/-- The loop of `Dtls13ReconstructEpochNumber`: the highest valid epoch with
these bits, if it is above `found`. -/
def highestWithBits (ssl : Ssl) (epochBits : BitVec 2) : List Slot → Option (BitVec 64) → Option (BitVec 64)
  | [], found => found
  | i :: is, found =>
    let e := ssl.dtls13Epochs i
    if e.isValid ∧ dtls13GetEpochBits e.epochNumber = epochBits ∧ found.getD 0 < e.epochNumber then
      highestWithBits ssl epochBits is (some e.epochNumber)
    else highestWithBits ssl epochBits is found

/-- `Dtls13ReconstructEpochNumber`; `none` is `SEQUENCE_ERROR`. -/
def dtls13ReconstructEpochNumber (ssl : Ssl) (epochBits : BitVec 2) : Option (BitVec 64) :=
  if dtls13GetEpochBits ssl.dtls13PeerEpoch = epochBits then some ssl.dtls13PeerEpoch
  else highestWithBits ssl epochBits (List.finRange EPOCH_SIZE) none

/-! ### What making an epoch does -/

theorem getEpoch_some {ssl : Ssl} {n : BitVec 64} {i : Slot} (h : dtls13GetEpoch ssl n = some i) :
    (ssl.dtls13Epochs i).epochNumber = n ∧ (ssl.dtls13Epochs i).isValid = true := by
  have := List.find?_some h
  simpa using this

theorem getEpoch_none {ssl : Ssl} {n : BitVec 64} (h : dtls13GetEpoch ssl n = none) (i : Slot) :
    (ssl.dtls13Epochs i).isValid = true → (ssl.dtls13Epochs i).epochNumber ≠ n := by
  have := List.find?_eq_none.mp h i (List.mem_finRange i)
  intro hv hn
  simp [hv, hn] at this

/-- The loop picks a free slot, or a slot that holds neither current epoch. -/
theorem newEpochSlotLoop_spec {ssl : Ssl} : ∀ {is : List Slot} {oldest : Option Slot} {i : Slot} {b : Bool},
    (∀ o ∈ oldest, (ssl.dtls13Epochs o).epochNumber ≠ ssl.dtls13Epoch ∧
      (ssl.dtls13Epochs o).epochNumber ≠ ssl.dtls13PeerEpoch) →
    newEpochSlotLoop ssl is oldest = some (i, b) →
      (b = false ∧ (ssl.dtls13Epochs i).isValid = false) ∨
      (b = true ∧ (ssl.dtls13Epochs i).epochNumber ≠ ssl.dtls13Epoch ∧
        (ssl.dtls13Epochs i).epochNumber ≠ ssl.dtls13PeerEpoch)
  | [], oldest, i, b, ho, h => by
    simp only [newEpochSlotLoop, Option.map_eq_some_iff, Prod.mk.injEq] at h
    obtain ⟨o, hoo, rfl, rfl⟩ := h
    exact Or.inr ⟨rfl, ho o hoo⟩
  | j :: is, oldest, i, b, ho, h => by
    simp only [newEpochSlotLoop] at h
    split at h
    · next hv =>
      obtain ⟨rfl, rfl⟩ := Prod.mk.inj (Option.some.inj h)
      exact Or.inl ⟨rfl, by simpa using hv⟩
    · split at h
      · next hne =>
        apply newEpochSlotLoop_spec _ h
        intro o hoo
        obtain rfl := Option.some.inj hoo
        exact ⟨hne.1, hne.2.1⟩
      · exact newEpochSlotLoop_spec ho h

theorem setOlderEpochSide_same (ssl : Ssl) (n : BitVec 64) (side : Side) (i : Slot) :
    (ssl.dtls13Epochs i).SameBut ((dtls13SetOlderEpochSide ssl n side).dtls13Epochs i) := by
  simp only [dtls13SetOlderEpochSide]
  split
  · exact Eq.refl _
  · exact Epoch.SameBut.rfl

/-- Filling a slot marks it and leaves the others as they are, but for their
side. -/
theorem fillSlot_same (ssl : Ssl) (i : Slot) (n : BitVec 64) (side : Side) (j : Slot) :
    (Function.update ssl.dtls13Epochs i (markSlot (ssl.dtls13Epochs i) n side) j).SameBut
      ((fillSlot ssl i n side).dtls13Epochs j) := by
  unfold fillSlot
  dsimp only
  split
  · exact setOlderEpochSide_same _ _ _ _
  · exact Epoch.SameBut.rfl

/-- Neither direction is turned elsewhere. -/
theorem fillSlot_directions (ssl : Ssl) (i : Slot) (n : BitVec 64) (side : Side) :
    (fillSlot ssl i n side).dtls13EncryptEpoch = ssl.dtls13EncryptEpoch ∧
      (fillSlot ssl i n side).dtls13DecryptEpoch = ssl.dtls13DecryptEpoch := by
  unfold fillSlot
  dsimp only
  split <;> exact ⟨rfl, rfl⟩

theorem markSlot_valid {e : Epoch} (h : e.isValid = true) (n : BitVec 64) (side : Side) :
    e.SameBut (markSlot e n side) := by
  unfold markSlot
  rw [if_neg (by simp [h])]
  split
  · exact Eq.refl _
  · exact Epoch.SameBut.rfl

/-- **What making an epoch does** to the table: in some slot `i` there is then
the epoch `n`, and every other slot is as before, but for its side. Either the
epoch was in that slot already, or no slot held it, and it starts fresh in one
that was free or held neither current epoch. -/
theorem newEpoch_cases {ssl ssl' : Ssl} {n : BitVec 64} {side : Side} (hclear : ∀ i,
      (ssl.dtls13Epochs i).isValid = false → ({} : Epoch).SameBut (ssl.dtls13Epochs i))
    (h : dtls13NewEpoch ssl n side = some ssl') :
    (ssl'.dtls13EncryptEpoch = ssl.dtls13EncryptEpoch ∧ ssl'.dtls13DecryptEpoch = ssl.dtls13DecryptEpoch) ∧ ∃ i,
      (∀ j, j ≠ i → (ssl.dtls13Epochs j).SameBut (ssl'.dtls13Epochs j)) ∧
      (((ssl.dtls13Epochs i).isValid = true ∧ (ssl.dtls13Epochs i).epochNumber = n ∧
          (ssl.dtls13Epochs i).SameBut (ssl'.dtls13Epochs i)) ∨
        (dtls13GetEpoch ssl n = none ∧
          ((ssl.dtls13Epochs i).isValid = true → (ssl.dtls13Epochs i).epochNumber ≠ ssl.dtls13Epoch ∧
            (ssl.dtls13Epochs i).epochNumber ≠ ssl.dtls13PeerEpoch) ∧
          ({ epochNumber := n, isValid := true } : Epoch).SameBut (ssl'.dtls13Epochs i))) := by
  unfold dtls13NewEpoch at h
  have hmark : ∀ {e : Epoch}, ({} : Epoch).SameBut e →
      ({ epochNumber := n, isValid := true } : Epoch).SameBut (markSlot e n side) := by
    intro e he
    rw [he]
    exact Eq.refl _
  split at h
  · next i hi =>
    obtain rfl := Option.some.inj h
    obtain ⟨hn, hv⟩ := getEpoch_some hi
    refine ⟨fillSlot_directions _ _ _ _, i, fun j hj => ?_, Or.inl ⟨hv, hn, ?_⟩⟩
    · have := fillSlot_same ssl i n side j
      rwa [Function.update_of_ne hj] at this
    · have := fillSlot_same ssl i n side i
      rw [Function.update_self] at this
      exact (markSlot_valid hv n side).trans this
  · next hnone =>
    simp only [dtls13NewEpochSlot, Option.map_map, Option.map_eq_some_iff, Prod.exists] at h
    obtain ⟨i, b, hloop, rfl⟩ := h
    cases b with
    | false =>
      have hinv : (ssl.dtls13Epochs i).isValid = false := by
        rcases newEpochSlotLoop_spec (by simp) hloop with ⟨_, hv⟩ | ⟨hb, _⟩
        · exact hv
        · exact absurd hb (by decide)
      refine ⟨fillSlot_directions _ _ _ _, i, fun j hj => ?_, Or.inr ⟨hnone, by simp [hinv], ?_⟩⟩
      · have := fillSlot_same ssl i n side j
        rwa [Function.update_of_ne hj] at this
      · have := fillSlot_same ssl i n side i
        rw [Function.update_self] at this
        exact (hmark (hclear i hinv)).trans this
    | true =>
      have hother : (ssl.dtls13Epochs i).epochNumber ≠ ssl.dtls13Epoch ∧
          (ssl.dtls13Epochs i).epochNumber ≠ ssl.dtls13PeerEpoch := by
        rcases newEpochSlotLoop_spec (by simp) hloop with ⟨hb, _⟩ | ⟨_, hne⟩
        · exact absurd hb (by decide)
        · exact hne
      refine ⟨fillSlot_directions _ _ _ _, i, fun j hj => ?_, Or.inr ⟨hnone, fun _ => hother, ?_⟩⟩
      · have := fillSlot_same { ssl with dtls13Epochs := Function.update ssl.dtls13Epochs i {} } i n side j
        simp only [Function.update_of_ne hj] at this
        exact this
      · have := fillSlot_same { ssl with dtls13Epochs := Function.update ssl.dtls13Epochs i {} } i n side i
        simp only [Function.update_self] at this
        exact (hmark Epoch.SameBut.rfl).trans this

/-- Making an epoch leaves both directions where they stand, at a slot that is in use
if it was. -/
theorem newEpoch_directions {ssl ssl' : Ssl} {n : BitVec 64} {side : Side} (hclear : ∀ i,
      (ssl.dtls13Epochs i).isValid = false → ({} : Epoch).SameBut (ssl.dtls13Epochs i))
    (h : dtls13NewEpoch ssl n side = some ssl') :
    ssl'.dtls13EncryptEpoch = ssl.dtls13EncryptEpoch ∧ ssl'.dtls13DecryptEpoch = ssl.dtls13DecryptEpoch ∧
      ∀ i, (ssl.dtls13Epochs i).isValid = true → (ssl'.dtls13Epochs i).isValid = true := by
  obtain ⟨⟨henc, hdec⟩, j, hother, hj⟩ := newEpoch_cases hclear h
  refine ⟨henc, hdec, fun i hi => ?_⟩
  by_cases hji : i = j
  · rw [hji]
    rcases hj with ⟨hv, -, hsame⟩ | ⟨-, -, hsame⟩
    · rw [hsame.isValid, hv]
    · exact hsame.isValid
  · rw [(hother i hji).isValid]
    exact hi

/-! ### A table in order -/

/-- The table is in order: free slots are clear, no epoch is held twice, and `P`
holds of every epoch that is held. -/
structure Tidy (ssl : Ssl) (P : Epoch → Prop) : Prop where
  clear : ∀ i, (ssl.dtls13Epochs i).isValid = false → ({} : Epoch).SameBut (ssl.dtls13Epochs i)
  distinct : ∀ i j, (ssl.dtls13Epochs i).isValid = true → (ssl.dtls13Epochs j).isValid = true →
    (ssl.dtls13Epochs i).epochNumber = (ssl.dtls13Epochs j).epochNumber → i = j
  each : ∀ i, (ssl.dtls13Epochs i).isValid = true → P (ssl.dtls13Epochs i)

section Tidy

variable {ssl ssl' : Ssl} {P Q : Epoch → Prop}

theorem tidy_init (h : P { isValid := true, side := .encryptAndDecryptSide }) : Tidy Ssl.init P := by
  have hzero : ∀ i, (Ssl.init.dtls13Epochs i).isValid = true → i = 0 := by
    intro i hi
    by_contra hne
    simp [Ssl.init, hne] at hi
  refine ⟨fun i hi => ?_, fun i j hi hj _ => (hzero i hi).trans (hzero j hj).symm, fun i hi => ?_⟩
  · by_cases h0 : i = 0
    · simp [Ssl.init, h0] at hi
    · simp [Ssl.init, h0, Epoch.SameBut.rfl]
  · rw [hzero i hi]
    exact h

theorem Tidy.of_same (h : Tidy ssl P) (hP : ∀ e e', Epoch.SameBut e e' → P e → P e')
    (hsame : ∀ i, (ssl.dtls13Epochs i).SameBut (ssl'.dtls13Epochs i)) : Tidy ssl' P where
  clear i hi := by
    rw [(hsame i).isValid] at hi
    exact (h.clear i hi).trans (hsame i)
  distinct i j hi hj hn := by
    rw [(hsame _).isValid] at hi hj
    rw [(hsame i).epochNumber, (hsame j).epochNumber] at hn
    exact h.distinct i j hi hj hn
  each i hi := by
    rw [(hsame i).isValid] at hi
    exact hP _ _ (hsame i) (h.each i hi)

/-- Making an epoch keeps the table in order, if `P` holds of the epoch when it
starts afresh. -/
theorem Tidy.newEpoch (h : Tidy ssl P) (hP : ∀ e e', Epoch.SameBut e e' → P e → P e') {n : BitVec 64} {side : Side}
    (hfresh : dtls13GetEpoch ssl n = none → P { epochNumber := n, isValid := true })
    (hnew : dtls13NewEpoch ssl n side = some ssl') : Tidy ssl' P := by
  obtain ⟨-, i, hother, ⟨_, _, hi⟩ | ⟨hnone, _, hi⟩⟩ := newEpoch_cases h.clear hnew
  · apply h.of_same hP
    intro j
    by_cases hj : j = i
    · rw [hj]
      exact hi
    · exact hother j hj
  · have hvi : (ssl'.dtls13Epochs i).isValid = true := hi.isValid
    have hni : (ssl'.dtls13Epochs i).epochNumber = n := hi.epochNumber
    -- another slot that is valid holds another epoch
    have hne : ∀ j, j ≠ i → (ssl'.dtls13Epochs j).isValid = true → (ssl'.dtls13Epochs j).epochNumber ≠ n := by
      intro j hj hv
      rw [(hother j hj).isValid] at hv
      rw [(hother j hj).epochNumber]
      exact getEpoch_none hnone j hv
    refine ⟨fun j hj => ?_, fun j k hj hk hjk => ?_, fun j hj => ?_⟩
    · by_cases hji : j = i
      · rw [hji, hvi] at hj
        cases hj
      · rw [(hother j hji).isValid] at hj
        exact (h.clear j hj).trans (hother j hji)
    · by_cases hji : j = i
      · by_contra hkj
        rw [hji, hni] at hjk
        exact hne k (fun hki => hkj (hji.trans hki.symm)) hk hjk.symm
      · by_cases hki : k = i
        · rw [hki, hni] at hjk
          exact absurd hjk (hne j hji hj)
        · rw [(hother j hji).isValid] at hj
          rw [(hother k hki).isValid] at hk
          rw [(hother j hji).epochNumber, (hother k hki).epochNumber] at hjk
          exact h.distinct j k hj hk hjk
    · by_cases hji : j = i
      · rw [hji]
        exact hP _ _ hi (hfresh hnone)
      · rw [(hother j hji).isValid] at hj
        exact hP _ _ (hother j hji) (h.each j hj)

/-- An epoch that is used keeps its number and its slot; of the other epochs, `Q`
must follow from `P`. -/
theorem Tidy.update (h : Tidy ssl P) {i : Slot} {e : Epoch} (hv : (ssl.dtls13Epochs i).isValid = true)
    (hn : e.epochNumber = (ssl.dtls13Epochs i).epochNumber) (hev : e.isValid = true) (he : Q e)
    (hother : ∀ e', P e' → e'.epochNumber ≠ e.epochNumber → Q e') :
    Tidy { ssl with dtls13Epochs := Function.update ssl.dtls13Epochs i e } Q := by
  have hval : ∀ j, (Function.update ssl.dtls13Epochs i e j).isValid = (ssl.dtls13Epochs j).isValid := by
    intro j
    by_cases hj : j = i
    · rw [hj, Function.update_self, hev, hv]
    · rw [Function.update_of_ne hj]
  have hnum : ∀ j, (Function.update ssl.dtls13Epochs i e j).epochNumber = (ssl.dtls13Epochs j).epochNumber := by
    intro j
    by_cases hj : j = i
    · rw [hj, Function.update_self, hn]
    · rw [Function.update_of_ne hj]
  refine ⟨fun j hj => ?_, fun j k hj hk hjk => ?_, fun j hj => ?_⟩ <;> dsimp only at *
  · rw [hval] at hj
    have hji : j ≠ i := by
      rintro rfl
      rw [hv] at hj
      cases hj
    rw [Function.update_of_ne hji]
    exact h.clear j hj
  · rw [hval] at hj hk
    rw [hnum, hnum] at hjk
    exact h.distinct j k hj hk hjk
  · by_cases hji : j = i
    · rw [hji, Function.update_self]
      exact he
    · rw [hval] at hj
      rw [Function.update_of_ne hji]
      apply hother _ (h.each j hj)
      rw [hn]
      exact fun heq => hji (h.distinct j i hj hv heq)

end Tidy

end Dtls13
end PqcDtls
