/-
# The record channel

One direction of a connection: a side that protects records and sends them, and
a side that takes what arrives through `GetDtls13RecordHeader`, decryption,
`removeMsgInnerPadding` and the replay window (`ProcessReplyEx`). The network
between them may lose, reorder and repeat datagrams and add its own; what it
cannot do is make a ciphertext that decrypts. Records in the clear, which anyone
can make, are followed as far as they move the receiver's epochs.

* `delivered_once_and_as_sent`: in every run, whatever epochs come and go, every
  protected record that is delivered was sent so, and none is delivered twice.
* `delivered_iff`: a sent record of an epoch that the receiver makes out and stands
  at is delivered exactly when its number is recoverable and the replay window lets
  it pass.
-/
import PqcDtls.Record

namespace PqcDtls
namespace Dtls13

open Lib

/-! ### Receiving a record -/

/-- What is known of a record before it is decrypted: `curSize`, `curEpoch64`,
`curSeq` and `dtls13CurRL`. -/
structure RecordHeader where
  curSize : ℕ
  curEpoch64 : BitVec 64
  curSeq : BitVec 64
  curRL : List UInt8
  deriving DecidableEq

/-- `GetDtls13RecordHeader` once the epoch's keys are in place: the rest of the
header, and the number in full. -/
def readHeader (c : RecordCipher) (e : Epoch) (epochNumber : BitVec 64) (input : List UInt8) :
    Except RecordError RecordHeader :=
  if input.length < dtls13GetUnifiedHeaderSize (input.headD 0) + RN_MASK_SIZE then .error .partialRecordRead
  else (dtls13ParseUnifiedRecordLayer c epochNumber input).map fun (hdrInfo, curRL) =>
    ⟨hdrInfo.recordLength, epochNumber, dtls13ReconstructSeqNumber e hdrInfo, curRL⟩

/-- `GetDtls13RecordHeader`. -/
def getDtls13RecordHeader (c : RecordCipher) (ssl : Ssl) (input : List UInt8) :
    Ssl × Except RecordError RecordHeader :=
  if input.length < 2 then (ssl, .error .bufferError)
  else
    match dtls13ReconstructEpochNumber ssl ((input.headD 0).toBitVec.setWidth 2) with
    | none => (ssl, .error .sequenceError)
    | some epochNumber =>
      if epochNumber = 0 then (ssl, .error .sequenceError)
      else
        match ssl.dtls13DecryptEpoch with
        | none => (ssl, .error .badState)
        | some i =>
          if (ssl.dtls13Epochs i).epochNumber = epochNumber then
            (ssl, readHeader c (ssl.dtls13Epochs i) epochNumber input)
          else
            match dtls13SetEpochKeys ssl epochNumber .decryptSideOnly with
            | none => (ssl, .error .sequenceError)
            | some ssl =>
              (ssl, match ssl.dtls13DecryptEpoch with
                | none => .error .badState
                | some i => readHeader c (ssl.dtls13Epochs i) epochNumber input)

/-- A record as it is handed on, or as it was given to be sent. -/
structure Content where
  epoch : BitVec 64
  seq : BitVec 64
  type : UInt8
  data : List UInt8
  deriving DecidableEq, Repr

/-- `MAX_TLS13_PLAIN_SZ` and `MAX_TLS13_ENC_SZ`. -/
def MAX_TLS13_PLAIN_SZ : ℕ := 2 ^ 14 + 1
def MAX_TLS13_ENC_SZ : ℕ := 2 ^ 14 + 256

/-- The record of a header decrypted and stripped: `getData` to
`verifyEncryptedMessage` of `ProcessReplyEx`. -/
def openRecord (c : RecordCipher) (h : RecordHeader) (input : List UInt8) : Option (UInt8 × List UInt8) :=
  let body := input.drop h.curRL.length
  if body.length < h.curSize then none
  else if MAX_TLS13_ENC_SZ < h.curSize ∨ MAX_TLS13_PLAIN_SZ < h.curSize - c.macSize then none
  else (c.decrypt h.curEpoch64 h.curSeq h.curRL (body.take h.curSize)).bind removeMsgInnerPadding

/-- `ProcessReplyEx` on a protected record, which starts with a unified header: what
it hands on, if anything. A datagram that starts otherwise is `plaintextArrives`. -/
def processReply (c : RecordCipher) (ssl : Ssl) (input : List UInt8) : Ssl × Option Content :=
  if !dtls13IsUnifiedHeader (input.headD 0) then (ssl, none)
  else
    match getDtls13RecordHeader c ssl input with
    | (ssl, .error _) => (ssl, none)
    | (ssl, .ok h) =>
      match openRecord c h input, ssl.dtls13DecryptEpoch with
      | some (type, data), some i =>
        if dtls13CheckWindow (ssl.dtls13Epochs i) h.curSeq then
          match dtls13UpdateWindow (ssl.dtls13Epochs i) h.curSeq with
          | some e =>
            ({ ssl with dtls13Epochs := Function.update ssl.dtls13Epochs i e },
              some ⟨h.curEpoch64, h.curSeq, type, data⟩)
          | none => (ssl, none)
        else (ssl, none)
      | _, _ => (ssl, none)

/-- The slot whose window `Dtls13UpdateWindow` updates for a record in the clear. -/
def plaintextSlot (ssl : Ssl) (i : Slot) : Option Slot :=
  if (ssl.dtls13Epochs i).epochNumber = 0 then some i else dtls13GetEpoch ssl 0

/-- What a record in the clear, of number `curSeq`, does to the epochs
(`GetDtlsRecordHeader` and `ProcessReplyEx`). Decryption turns to epoch 0 if it can:
the result of `Dtls13SetEpochKeys` is not looked at. A record whose header is `taken`
(its version, type and length are) goes by the window of the decrypting epoch and is
noted in that of epoch 0. -/
def plaintextArrives (ssl : Ssl) (curSeq : BitVec 64) (taken : Bool) : Ssl :=
  match ssl.dtls13DecryptEpoch with
  | none => ssl
  | some i =>
    let ssl := if (ssl.dtls13Epochs i).epochNumber = 0 then ssl
      else (dtls13SetEpochKeys ssl 0 .decryptSideOnly).getD ssl
    match ssl.dtls13DecryptEpoch with
    | none => ssl
    | some i =>
      if taken && dtls13CheckWindow (ssl.dtls13Epochs i) curSeq then
        ((plaintextSlot ssl i).bind fun k => (dtls13UpdateWindow (ssl.dtls13Epochs k) curSeq).map fun e =>
          { ssl with dtls13Epochs := Function.update ssl.dtls13Epochs k e }).getD ssl
      else ssl

/-- Setting keys turns one or both sides to a valid slot, and leaves the table. -/
theorem setEpochKeys_spec {ssl ssl' : Ssl} {n : BitVec 64} {side : Side}
    (h : dtls13SetEpochKeys ssl n side = some ssl') :
    ∃ i, (ssl.dtls13Epochs i).isValid = true ∧ ssl'.dtls13Epochs = ssl.dtls13Epochs ∧
      (ssl'.dtls13DecryptEpoch = ssl.dtls13DecryptEpoch ∨ ssl'.dtls13DecryptEpoch = some i) := by
  unfold dtls13SetEpochKeys at h
  split at h
  · cases h
  · next i hi =>
    split at h
    · cases h
    · obtain rfl := Option.some.inj h
      refine ⟨i, (getEpoch_some hi).2, rfl, ?_⟩
      dsimp only
      split
      · exact Or.inr rfl
      · exact Or.inl rfl

theorem setEpochKeys_decrypt {ssl ssl' : Ssl} {n : BitVec 64}
    (h : dtls13SetEpochKeys ssl n .decryptSideOnly = some ssl') :
    ∃ i, ssl' = { ssl with dtls13DecryptEpoch := some i } ∧ (ssl.dtls13Epochs i).isValid = true ∧
      (ssl.dtls13Epochs i).epochNumber = n := by
  unfold dtls13SetEpochKeys at h
  split at h
  · cases h
  · next i hi =>
    obtain ⟨hn, hv⟩ := getEpoch_some hi
    split at h
    · cases h
    · obtain rfl := Option.some.inj h
      exact ⟨i, by simp, hv, hn⟩

theorem readHeader_ok {c : RecordCipher} {e : Epoch} {n : BitVec 64} {input : List UInt8} {hd : RecordHeader}
    (h : readHeader c e n input = .ok hd) : hd.curEpoch64 = n := by
  unfold readHeader at h
  split at h
  · cases h
  · cases hp : dtls13ParseUnifiedRecordLayer c n input with
    | error err => simp [hp, Except.map] at h
    | ok r =>
      simp only [hp, Except.map, Except.ok.injEq] at h
      rw [← h]

/-- What reading a header does: it may turn the decrypting side to the epoch of
the record, and if it reads one, that is where it stands. -/
theorem getDtls13RecordHeader_spec (c : RecordCipher) (ssl : Ssl) (input : List UInt8) :
    ((getDtls13RecordHeader c ssl input).1 = ssl ∨
      ∃ i, (getDtls13RecordHeader c ssl input).1 = { ssl with dtls13DecryptEpoch := some i } ∧
        (ssl.dtls13Epochs i).isValid = true) ∧
    ∀ hd, (getDtls13RecordHeader c ssl input).2 = .ok hd →
      ∃ i, (getDtls13RecordHeader c ssl input).1.dtls13DecryptEpoch = some i ∧
        (ssl.dtls13Epochs i).epochNumber = hd.curEpoch64 := by
  unfold getDtls13RecordHeader
  split
  · simp
  split
  · simp
  split
  · simp
  split
  · simp
  next i hi =>
  split
  · next hn =>
    refine ⟨Or.inl rfl, fun hd hok => ⟨i, hi, ?_⟩⟩
    rw [readHeader_ok hok, hn]
  · split
    · simp
    · next ssl' hk =>
      obtain ⟨j, rfl, hv, hn⟩ := setEpochKeys_decrypt hk
      refine ⟨Or.inr ⟨j, rfl, hv⟩, fun hd hok => ⟨j, rfl, ?_⟩⟩
      rw [readHeader_ok hok, hn]

/-- A header that is read is one of a protected epoch. -/
theorem getDtls13RecordHeader_ne_zero {c : RecordCipher} {ssl : Ssl} {input : List UInt8} {hd : RecordHeader}
    (h : (getDtls13RecordHeader c ssl input).2 = .ok hd) : hd.curEpoch64 ≠ 0 := by
  unfold getDtls13RecordHeader at h
  split at h
  · cases h
  split at h
  · cases h
  split at h
  · cases h
  next hzero =>
  split at h
  · cases h
  split at h
  · rwa [readHeader_ok h]
  · split at h
    · cases h
    · dsimp only at h
      split at h
      · cases h
      · rwa [readHeader_ok h]

/-- A record in the clear may turn the decrypting side to another slot, and may change
the window of epoch 0. -/
theorem plaintextArrives_cases (ssl : Ssl) (curSeq : BitVec 64) (taken : Bool) :
    ∃ ssl₁ : Ssl, (ssl₁ = ssl ∨ ∃ i, ssl₁ = { ssl with dtls13DecryptEpoch := some i } ∧
        (ssl.dtls13Epochs i).isValid = true) ∧
      (plaintextArrives ssl curSeq taken = ssl₁ ∨
        ∃ i k e, ssl₁.dtls13DecryptEpoch = some i ∧ plaintextSlot ssl₁ i = some k ∧
          dtls13UpdateWindow (ssl₁.dtls13Epochs k) curSeq = some e ∧
          plaintextArrives ssl curSeq taken =
            { ssl₁ with dtls13Epochs := Function.update ssl₁.dtls13Epochs k e }) := by
  unfold plaintextArrives
  split
  · exact ⟨ssl, Or.inl rfl, Or.inl rfl⟩
  next i hi =>
  dsimp only
  generalize hturn : (if (ssl.dtls13Epochs i).epochNumber = 0 then ssl
    else (dtls13SetEpochKeys ssl 0 .decryptSideOnly).getD ssl) = ssl₁
  have hssl : ssl₁ = ssl ∨ ∃ i, ssl₁ = { ssl with dtls13DecryptEpoch := some i } ∧
      (ssl.dtls13Epochs i).isValid = true := by
    subst hturn
    split
    · exact Or.inl rfl
    · cases hset : dtls13SetEpochKeys ssl 0 .decryptSideOnly with
      | none => exact Or.inl rfl
      | some ssl' =>
        obtain ⟨j, rfl, hv, -⟩ := setEpochKeys_decrypt hset
        exact Or.inr ⟨j, rfl, hv⟩
  refine ⟨ssl₁, hssl, ?_⟩
  split
  · exact Or.inl rfl
  next j hj =>
  split
  · cases hk : plaintextSlot ssl₁ j with
    | none => exact Or.inl rfl
    | some k =>
      cases hu : dtls13UpdateWindow (ssl₁.dtls13Epochs k) curSeq with
      | none =>
        left
        simp [hu]
      | some e =>
        refine Or.inr ⟨j, k, e, hj, hk, hu, ?_⟩
        simp [hu]
  · exact Or.inl rfl

/-- What a datagram does to the receiver: nothing but that it may turn the
decrypting side to another epoch, or it is delivered through the window of the
slot that holds its epoch. -/
theorem processReply_cases (c : RecordCipher) (ssl : Ssl) (input : List UInt8) :
    ∃ ssl₁ : Ssl, (ssl₁ = ssl ∨ ∃ i, ssl₁ = { ssl with dtls13DecryptEpoch := some i } ∧
        (ssl.dtls13Epochs i).isValid = true) ∧
      (processReply c ssl input = (ssl₁, none) ∨
        ∃ i h type data e, ssl₁.dtls13DecryptEpoch = some i ∧
          getDtls13RecordHeader c ssl input = (ssl₁, .ok h) ∧
          (ssl.dtls13Epochs i).epochNumber = h.curEpoch64 ∧ openRecord c h input = some (type, data) ∧
          dtls13CheckWindow (ssl.dtls13Epochs i) h.curSeq = true ∧
          dtls13UpdateWindow (ssl.dtls13Epochs i) h.curSeq = some e ∧
          processReply c ssl input =
            ({ ssl₁ with dtls13Epochs := Function.update ssl.dtls13Epochs i e },
              some ⟨h.curEpoch64, h.curSeq, type, data⟩)) := by
  unfold processReply
  split
  · exact ⟨ssl, Or.inl rfl, Or.inl rfl⟩
  obtain ⟨hssl, hok⟩ := getDtls13RecordHeader_spec c ssl input
  split
  · next ssl₁ err hget =>
    rw [hget] at hssl
    exact ⟨ssl₁, hssl, Or.inl rfl⟩
  · next ssl₁ h hget =>
    rw [hget] at hssl hok
    refine ⟨ssl₁, hssl, ?_⟩
    obtain ⟨i, hi, hn⟩ := hok h rfl
    have hep : ssl₁.dtls13Epochs = ssl.dtls13Epochs := by
      rcases hssl with rfl | ⟨j, rfl, _⟩ <;> rfl
    rw [hi, hep]
    cases hopen : openRecord c h input with
    | none => exact Or.inl rfl
    | some td =>
      obtain ⟨type, data⟩ := td
      dsimp only
      cases hc : dtls13CheckWindow (ssl.dtls13Epochs i) h.curSeq with
      | false => exact Or.inl rfl
      | true =>
        cases hu : dtls13UpdateWindow (ssl.dtls13Epochs i) h.curSeq with
        | none => exact Or.inl rfl
        | some e => exact Or.inr ⟨i, h, type, data, e, rfl, hget, hn, hopen, hc, hu, rfl⟩

/-! ### The channel -/

/-- One direction of a connection: the sender, the receiver, what was given to
be sent and what was delivered of the protected records, the last one first. -/
structure Link where
  tx : Ssl
  rx : Ssl
  wire : List (List UInt8)
  sent : List Content
  delivered : List Content

/-- What happens on the link. -/
inductive LinkEv where
  /-- The sender protects a record in its current epoch. -/
  | send (outSz : ℕ) (type : UInt8) (data : List UInt8)
  /-- A datagram arrives, sent or not. -/
  | arrive (datagram : List UInt8)
  /-- A record in the clear arrives. -/
  | plaintext (curSeq : BitVec 64) (taken : Bool)
  /-- `Dtls13NewEpoch` and `Dtls13SetEpochKeys` on either side. -/
  | txNewEpoch (n : BitVec 64) (side : Side)
  | txSetKeys (n : BitVec 64) (side : Side)
  | rxNewEpoch (n : BitVec 64) (side : Side)
  | rxSetKeys (n : BitVec 64) (side : Side)
  /-- The receiver's own and the peer's current epoch change, and the handshake ends. -/
  | rxEpochs (own peer : BitVec 64) (done : Bool)

/-- The link after an event; a call that fails leaves its side as it is. -/
def Link.step (c : RecordCipher) (s : Link) : LinkEv → Link
  | .send outSz type data =>
    match s.tx.dtls13EncryptEpoch with
    | none => s
    | some i =>
      let e := s.tx.dtls13Epochs i
      let (record, e') := buildTls13Message c e outSz data type
      { s with
        tx := { s.tx with dtls13Epochs := Function.update s.tx.dtls13Epochs i e' }
        wire := record.toList ++ s.wire
        sent := record.toList.map (fun _ => ⟨e.epochNumber, e.nextSeqNumber, type, data⟩) ++ s.sent }
  | .arrive datagram =>
    let (rx, got) := processReply c s.rx datagram
    { s with rx := rx, delivered := got.toList ++ s.delivered }
  | .plaintext curSeq taken => { s with rx := plaintextArrives s.rx curSeq taken }
  | .txNewEpoch n side => { s with tx := (dtls13NewEpoch s.tx n side).getD s.tx }
  | .txSetKeys n side => { s with tx := (dtls13SetEpochKeys s.tx n side).getD s.tx }
  | .rxNewEpoch n side => { s with rx := (dtls13NewEpoch s.rx n side).getD s.rx }
  | .rxSetKeys n side => { s with rx := (dtls13SetEpochKeys s.rx n side).getD s.rx }
  | .rxEpochs own peer done =>
    { s with rx := { s.rx with dtls13Epoch := own, dtls13PeerEpoch := peer, handShakeDone := done } }

/-- The link of a new connection. -/
def Link.init : Link := ⟨Ssl.init, Ssl.init, [], [], []⟩

/-- What the runs are asked: content types are not zero, the last sequence
number of an epoch is not used, what the receiver decrypts of a datagram was
protected by the sender, and the receiver does not make an epoch again that it
has delivered records of. -/
def LinkOk (c : RecordCipher) (s : Link) : LinkEv → Prop
  | .send _ type _ => type ≠ 0 ∧
      ∀ i, s.tx.dtls13EncryptEpoch = some i → (s.tx.dtls13Epochs i).nextSeqNumber ≠ BitVec.allOnes 64
  | .arrive datagram => ∀ h plain, (getDtls13RecordHeader c s.rx datagram).2 = .ok h →
      c.decrypt h.curEpoch64 h.curSeq h.curRL ((datagram.drop h.curRL.length).take h.curSize) = some plain →
        ∃ r ∈ s.sent, r.epoch = h.curEpoch64 ∧ r.seq = h.curSeq ∧
          ∃ k, plain = r.data ++ r.type :: List.replicate k 0
  | .rxNewEpoch n _ => dtls13GetEpoch s.rx n = none → ∀ r ∈ s.delivered, r.epoch ≠ n
  | _ => True

/-- The numbers of the delivered records of epoch `n`. -/
def numbersOf (delivered : List Content) (n : BitVec 64) : List (BitVec 64) :=
  (delivered.filter fun r => r.epoch = n).map (·.seq)

theorem numbersOf_cons (r : Content) (delivered : List Content) (n : BitVec 64) :
    numbersOf (r :: delivered) n = if r.epoch = n then r.seq :: numbersOf delivered n else numbersOf delivered n := by
  unfold numbersOf
  rw [List.filter_cons]
  by_cases h : r.epoch = n <;> simp [h]

theorem mem_numbersOf {delivered : List Content} {n q : BitVec 64} :
    q ∈ numbersOf delivered n ↔ (n, q) ∈ delivered.map fun r => (r.epoch, r.seq) := by
  simp only [numbersOf, List.mem_map, List.mem_filter, decide_eq_true_eq, Prod.mk.injEq]
  constructor
  · rintro ⟨r, ⟨hr, hn⟩, hq⟩
    exact ⟨r, hr, hn, hq⟩
  · rintro ⟨r, hr, hn, hq⟩
    exact ⟨r, ⟨hr, hn⟩, hq⟩

/-- The receiver's table is in order, the decrypting side stands at a valid slot,
and every window remembers what was delivered in its epoch. -/
structure TableOk (rx : Ssl) (numbers : BitVec 64 → List (BitVec 64)) : Prop extends
    Tidy rx fun e => Remembers ⟨e, numbers e.epochNumber⟩ where
  decrypt : ∀ i, rx.dtls13DecryptEpoch = some i → (rx.dtls13Epochs i).isValid = true

/-- What every state of the link satisfies. -/
structure LinkInv (s : Link) : Prop where
  table : TableOk s.rx (numbersOf s.delivered)
  sent : ∀ r ∈ s.sent, r.type ≠ 0 ∧ r.seq ≠ BitVec.allOnes 64
  asSent : ∀ r ∈ s.delivered, r ∈ s.sent
  guarded : ∀ r ∈ s.delivered, r.epoch ≠ 0
  once : (s.delivered.map fun r => (r.epoch, r.seq)).Nodup

theorem linkInv_init : LinkInv Link.init := by
  refine ⟨⟨tidy_init (fun s hs => ?_), fun i h => ?_⟩, by simp [Link.init], by simp [Link.init], by simp [Link.init],
    by simp [Link.init]⟩
  · simp [Link.init, numbersOf] at hs
  · obtain rfl : 0 = i := Option.some.inj h
    rfl

theorem Remembers.of_same (numbers : BitVec 64 → List (BitVec 64)) (e e' : Epoch) (hsame : e.SameBut e')
    (h : Remembers ⟨e, numbers e.epochNumber⟩) : Remembers ⟨e', numbers e'.epochNumber⟩ := by
  unfold Remembers at h ⊢
  simp only [hsame.epochNumber, hsame.nextPeerSeqNumber, hsame.window]
  exact h

/-- Slots that keep everything but their side keep what the table is. -/
theorem TableOk.of_same {rx rx' : Ssl} {numbers : BitVec 64 → List (BitVec 64)} (h : TableOk rx numbers)
    (hsame : ∀ i, (rx.dtls13Epochs i).SameBut (rx'.dtls13Epochs i))
    (hdec : ∀ i, rx'.dtls13DecryptEpoch = some i → (rx.dtls13Epochs i).isValid = true) : TableOk rx' numbers where
  toTidy := h.toTidy.of_same (Remembers.of_same numbers) hsame
  decrypt i hi := by
    rw [(hsame i).isValid]
    exact hdec i hi

/-- Making an epoch keeps the table, unless it makes one again that has seen
records. -/
theorem TableOk.newEpoch {rx rx' : Ssl} {numbers : BitVec 64 → List (BitVec 64)} (h : TableOk rx numbers)
    {n : BitVec 64} {side : Side} (hfresh : dtls13GetEpoch rx n = none → numbers n = [])
    (hnew : dtls13NewEpoch rx n side = some rx') : TableOk rx' numbers := by
  refine ⟨h.toTidy.newEpoch (Remembers.of_same numbers) (fun hnone q hq => ?_) hnew, fun i hi => ?_⟩
  · simp [hfresh hnone] at hq
  · obtain ⟨-, hdec, hkeeps⟩ := newEpoch_directions h.clear hnew
    rw [hdec] at hi
    exact hkeeps i (h.decrypt i hi)

theorem updateWindow_keeps {e e' : Epoch} {seq : BitVec 64} (h : dtls13UpdateWindow e seq = some e') :
    e'.epochNumber = e.epochNumber ∧ e'.isValid = e.isValid := by
  unfold dtls13UpdateWindow at h
  dsimp only at h
  split at h
  · split at h
    · cases h
    · obtain rfl := Option.some.inj h
      exact ⟨rfl, rfl⟩
  · obtain rfl := Option.some.inj h
    exact ⟨rfl, rfl⟩

theorem openRecord_some {c : RecordCipher} {h : RecordHeader} {input : List UInt8} {type : UInt8}
    {data : List UInt8} (ho : openRecord c h input = some (type, data)) :
    ∃ plain, c.decrypt h.curEpoch64 h.curSeq h.curRL ((input.drop h.curRL.length).take h.curSize) = some plain ∧
      removeMsgInnerPadding plain = some (type, data) := by
  unfold openRecord at ho
  dsimp only at ho
  split at ho
  · cases ho
  · split at ho
    · cases ho
    · exact Option.bind_eq_some_iff.mp ho

/-- The window of the slot that a record came through remembers it too. -/
theorem TableOk.deliver {rx : Ssl} {delivered : List Content} (h : TableOk rx (numbersOf delivered)) {i : Slot}
    {r : Content} {e : Epoch} (hv : (rx.dtls13Epochs i).isValid = true)
    (hn : (rx.dtls13Epochs i).epochNumber = r.epoch) (hlast : r.seq.toNat + 1 < 2 ^ 64)
    (hc : dtls13CheckWindow (rx.dtls13Epochs i) r.seq = true)
    (hu : dtls13UpdateWindow (rx.dtls13Epochs i) r.seq = some e) :
    TableOk { rx with dtls13Epochs := Function.update rx.dtls13Epochs i e } (numbersOf (r :: delivered)) := by
  obtain ⟨hen, hev⟩ := updateWindow_keeps hu
  have hrec : processRecord ⟨rx.dtls13Epochs i, numbersOf delivered (rx.dtls13Epochs i).epochNumber⟩ r.seq =
      ⟨e, r.seq :: numbersOf delivered (rx.dtls13Epochs i).epochNumber⟩ := by
    simp [processRecord, hc, hu]
  refine ⟨h.toTidy.update hv hen (hev.trans hv) ?_ (fun e' he' hne => ?_), fun j hj => ?_⟩
  · have hstep := (h.each i hv).step hlast
    rw [hrec] at hstep
    rwa [hen, numbersOf_cons, if_pos hn.symm]
  · rw [numbersOf_cons, if_neg (fun heq => hne (heq.symm.trans (hn.symm.trans hen.symm)))]
    exact he'
  · by_cases hji : j = i
    · simp only [hji, Function.update_self]
      exact hev.trans hv
    · simp only [Function.update_of_ne hji]
      exact h.decrypt j hj

/-- What a record in the clear changes is no window that remembers anything. -/
theorem TableOk.plaintext {rx : Ssl} {numbers : BitVec 64 → List (BitVec 64)} (h : TableOk rx numbers) {k : Slot}
    {curSeq : BitVec 64} {e : Epoch} (hnone : numbers 0 = []) (hv : (rx.dtls13Epochs k).isValid = true)
    (hn : (rx.dtls13Epochs k).epochNumber = 0) (hu : dtls13UpdateWindow (rx.dtls13Epochs k) curSeq = some e) :
    TableOk { rx with dtls13Epochs := Function.update rx.dtls13Epochs k e } numbers := by
  obtain ⟨hen, hev⟩ := updateWindow_keeps hu
  refine ⟨h.toTidy.update hv hen (hev.trans hv) (fun q hq => ?_) (fun e' he' _ => he'), fun j hj => ?_⟩
  · rw [show numbers e.epochNumber = [] by rw [hen, hn, hnone]] at hq
    cases hq
  · by_cases hjk : j = k
    · simp only [hjk, Function.update_self]
      exact hev.trans hv
    · simp only [Function.update_of_ne hjk]
      exact h.decrypt j hj

/-- Turning the decrypting side to a valid slot keeps the table. -/
theorem TableOk.turned {rx rx₁ : Ssl} {numbers : BitVec 64 → List (BitVec 64)} (h : TableOk rx numbers)
    (hrx : rx₁ = rx ∨ ∃ i, rx₁ = { rx with dtls13DecryptEpoch := some i } ∧ (rx.dtls13Epochs i).isValid = true) :
    TableOk rx₁ numbers := by
  rcases hrx with rfl | ⟨j, rfl, hj⟩
  · exact h
  · refine h.of_same (fun i => Epoch.SameBut.rfl) fun i hi => ?_
    obtain rfl := Option.some.inj hi
    exact hj

theorem LinkInv.plaintext {c : RecordCipher} {s : Link} (h : LinkInv s) (curSeq : BitVec 64) (taken : Bool) :
    LinkInv (s.step c (.plaintext curSeq taken)) := by
  refine ⟨?_, h.sent, h.asSent, h.guarded, h.once⟩
  simp only [Link.step]
  obtain ⟨rx₁, hrx, heq | ⟨i, k, e, hi, hk, hu, heq⟩⟩ := plaintextArrives_cases s.rx curSeq taken
  · rw [heq]
    exact h.table.turned hrx
  · rw [heq]
    have htable := h.table.turned hrx
    have hzero : (rx₁.dtls13Epochs k).epochNumber = 0 ∧ (rx₁.dtls13Epochs k).isValid = true := by
      unfold plaintextSlot at hk
      split at hk
      · next hn =>
        obtain rfl := Option.some.inj hk
        exact ⟨hn, htable.decrypt i hi⟩
      · exact getEpoch_some hk
    have hnone : numbersOf s.delivered 0 = [] := by
      rw [List.eq_nil_iff_forall_not_mem]
      intro q hq
      obtain ⟨r, hr, hpair⟩ := List.mem_map.mp (mem_numbersOf.mp hq)
      exact h.guarded r hr (Prod.mk.inj hpair).1
    exact htable.plaintext hnone hzero.2 hzero.1 hu

/-- A datagram keeps the invariant: if it is delivered, it is a sent record that
the window had not seen. -/
theorem LinkInv.arrive {c : RecordCipher} {s : Link} (h : LinkInv s) {datagram : List UInt8}
    (hok : LinkOk c s (.arrive datagram)) : LinkInv (s.step c (.arrive datagram)) := by
  obtain ⟨rx₁, hrx, hnone | ⟨i, hd, type, data, e, hi, hget, hn, hopen, hc, hu, heq⟩⟩ :=
    processReply_cases c s.rx datagram
  · simp only [Link.step, hnone, Option.toList_none, List.nil_append]
    exact ⟨h.table.turned hrx, h.sent, h.asSent, h.guarded, h.once⟩
  · obtain ⟨plain, hdecr, hstrip⟩ := openRecord_some hopen
    obtain ⟨r, hr, hre, hrs, k, rfl⟩ := hok hd plain (by rw [hget]) hdecr
    obtain ⟨htype, hlast⟩ := h.sent r hr
    rw [removeMsgInnerPadding_inner r.data htype k] at hstrip
    obtain ⟨rfl, rfl⟩ := Prod.mk.inj (Option.some.inj hstrip)
    have hcontent : (⟨hd.curEpoch64, hd.curSeq, r.type, r.data⟩ : Content) = r := by
      rw [← hre, ← hrs]
    rw [hcontent] at heq
    rw [← hre] at hn
    rw [← hrs] at hc hu
    -- the slot it came through is valid, whether it was found now or before
    have hv : (s.rx.dtls13Epochs i).isValid = true := by
      rcases hrx with rfl | ⟨j, rfl, hj⟩
      · exact h.table.decrypt i hi
      · obtain rfl := Option.some.inj hi
        exact hj
    have htable := h.table.deliver hv hn (toNat_lt_of_ne_allOnes hlast) hc hu
    have hnew : (r.epoch, r.seq) ∉ s.delivered.map fun r => (r.epoch, r.seq) := by
      rw [← mem_numbersOf, ← hn]
      exact (h.table.each i hv).not_mem hc
    have hguarded : r.epoch ≠ 0 := by
      rw [hre]
      exact getDtls13RecordHeader_ne_zero (congrArg Prod.snd hget)
    simp only [Link.step, heq, Option.toList_some, List.singleton_append]
    refine ⟨?_, h.sent, ?_, ?_, ?_⟩
    · apply htable.of_same
      · intro j
        exact Epoch.SameBut.rfl
      · intro j hj
        obtain rfl : i = j := Option.some.inj (hi.symm.trans hj)
        simp only [Function.update_self]
        exact (updateWindow_keeps hu).2.trans hv
    · intro r' hr'
      rcases List.mem_cons.mp hr' with rfl | hr'
      · exact hr
      · exact h.asSent r' hr'
    · intro r' hr'
      rcases List.mem_cons.mp hr' with rfl | hr'
      · exact hguarded
      · exact h.guarded r' hr'
    · rw [List.map_cons]
      exact List.nodup_cons.mpr ⟨hnew, h.once⟩

theorem LinkInv.send {c : RecordCipher} {s : Link} (h : LinkInv s) {outSz : ℕ} {type : UInt8} {data : List UInt8}
    (hok : LinkOk c s (.send outSz type data)) : LinkInv (s.step c (.send outSz type data)) := by
  cases hi : s.tx.dtls13EncryptEpoch with
  | none =>
    simp only [Link.step, hi]
    exact h
  | some i =>
    simp only [Link.step, hi]
    refine ⟨h.table, fun r hr => ?_, fun r hr => List.mem_append_right _ (h.asSent r hr), h.guarded, h.once⟩
    rcases List.mem_append.mp hr with hr | hr
    · obtain ⟨_, _, rfl⟩ := List.mem_map.mp hr
      exact ⟨hok.1, hok.2 i hi⟩
    · exact h.sent r hr

theorem LinkInv.step {c : RecordCipher} {s : Link} (h : LinkInv s) {ev : LinkEv} (hok : LinkOk c s ev) :
    LinkInv (s.step c ev) := by
  cases ev with
  | send => exact h.send hok
  | arrive => exact h.arrive hok
  | plaintext curSeq taken => exact h.plaintext curSeq taken
  | txNewEpoch => exact ⟨h.table, h.sent, h.asSent, h.guarded, h.once⟩
  | txSetKeys => exact ⟨h.table, h.sent, h.asSent, h.guarded, h.once⟩
  | rxNewEpoch n side =>
    refine ⟨?_, h.sent, h.asSent, h.guarded, h.once⟩
    simp only [Link.step]
    cases hnew : dtls13NewEpoch s.rx n side with
    | none => exact h.table
    | some rx =>
      apply h.table.newEpoch _ hnew
      intro hnone
      rw [List.eq_nil_iff_forall_not_mem]
      intro q hq
      obtain ⟨r, hr, heq⟩ := List.mem_map.mp (mem_numbersOf.mp hq)
      exact hok hnone r hr (Prod.mk.inj heq).1
  | rxSetKeys n side =>
    refine ⟨?_, h.sent, h.asSent, h.guarded, h.once⟩
    simp only [Link.step]
    cases hset : dtls13SetEpochKeys s.rx n side with
    | none => exact h.table
    | some rx =>
      obtain ⟨i, hv, hsame, hdec⟩ := setEpochKeys_spec hset
      apply h.table.of_same
      · intro j
        rw [Option.getD_some, hsame]
        exact Epoch.SameBut.rfl
      · intro j hj
        rcases hdec with hd | hd <;> rw [Option.getD_some, hd] at hj
        · exact h.table.decrypt j hj
        · obtain rfl := Option.some.inj hj
          exact hv
  | rxEpochs =>
    exact ⟨h.table.of_same (fun _ => Epoch.SameBut.rfl) h.table.decrypt, h.sent, h.asSent, h.guarded, h.once⟩

/-- **Records are delivered as they were sent, and once**: in every run of the
link, whatever the network does with the datagrams, whatever it adds in the clear
and whatever epochs come and go, each protected record that is delivered is one
that was sent, with its type and its content, and none is delivered twice. -/
theorem delivered_once_and_as_sent (c : RecordCipher) (evs : List LinkEv)
    (hm : Meets (fun s ev => some (s.step c ev)) (LinkOk c) Link.init evs) :
    (∀ r ∈ (evs.foldl (Link.step c) Link.init).delivered, r ∈ (evs.foldl (Link.step c) Link.init).sent) ∧
      ((evs.foldl (Link.step c) Link.init).delivered.map fun r => (r.epoch, r.seq)).Nodup := by
  have hinv : LinkInv (evs.foldl (Link.step c) Link.init) := by
    refine run_invariant_of_meets (fun s ev => some (s.step c ev)) ?_ Link.init evs _ linkInv_init hm
      (run_some (Link.step c) _ _)
    intro s ev t hs hok hstep
    obtain rfl := Option.some.inj hstep
    exact hs.step hok
  exact ⟨hinv.asSent, hinv.once⟩

/-- The datagram of a first record, of content type 22, in epoch 2. -/
def firstRecord : List UInt8 :=
  (buildTls13Message plainCipher { epochNumber := 2, isValid := true } 100 [1, 2, 3] 22).1.getD []

/-- Both sides make epoch 2, one record is sent, and it arrives twice, with a record in
the clear between. -/
def replayedRecord : List LinkEv :=
  [.txNewEpoch 2 .encryptAndDecryptSide, .txSetKeys 2 .encryptSideOnly, .rxNewEpoch 2 .encryptAndDecryptSide,
    .rxEpochs 2 2 false, .send 100 22 [1, 2, 3], .arrive firstRecord, .plaintext 0 true, .arrive firstRecord]

theorem replayedRecord_ok :
    Meets (fun s ev => some (s.step plainCipher ev)) (LinkOk plainCipher) Link.init replayedRecord := by
  have harrive : ∀ s : Link, (getDtls13RecordHeader plainCipher s.rx firstRecord).2 =
      .ok ⟨20, 2, 0, [46, 0, 0, 0, 20]⟩ → (⟨2, 0, 22, [1, 2, 3]⟩ : Content) ∈ s.sent →
      LinkOk plainCipher s (.arrive firstRecord) := by
    intro s hget hsent h plain hok hplain
    obtain rfl := Except.ok.inj (hget.symm.trans hok)
    refine ⟨⟨2, 0, 22, [1, 2, 3]⟩, hsent, rfl, rfl, 0, ?_⟩
    exact (Option.some.inj hplain).symm
  refine ⟨trivial, fun _ h => ?_⟩
  obtain rfl := Option.some.inj h
  refine ⟨trivial, fun _ h => ?_⟩
  obtain rfl := Option.some.inj h
  refine ⟨fun _ r hr => absurd hr List.not_mem_nil, fun _ h => ?_⟩
  obtain rfl := Option.some.inj h
  refine ⟨trivial, fun _ h => ?_⟩
  obtain rfl := Option.some.inj h
  refine ⟨⟨by decide, fun i hi => ?_⟩, fun _ h => ?_⟩
  · obtain rfl := Option.some.inj hi
    decide +kernel
  obtain rfl := Option.some.inj h
  refine ⟨harrive _ (by decide +kernel) (by decide +kernel), fun _ h => ?_⟩
  obtain rfl := Option.some.inj h
  refine ⟨trivial, fun _ h => ?_⟩
  obtain rfl := Option.some.inj h
  exact ⟨harrive _ (by decide +kernel) (by decide +kernel), fun _ _ => trivial⟩

theorem delivered_once_and_as_sent_replayed :
    (replayedRecord.foldl (Link.step plainCipher) Link.init).delivered = [⟨2, 0, 22, [1, 2, 3]⟩] ∧
      (∀ r ∈ (replayedRecord.foldl (Link.step plainCipher) Link.init).delivered,
        r ∈ (replayedRecord.foldl (Link.step plainCipher) Link.init).sent) ∧
      ((replayedRecord.foldl (Link.step plainCipher) Link.init).delivered.map fun r => (r.epoch, r.seq)).Nodup :=
  ⟨by decide +kernel, delivered_once_and_as_sent plainCipher replayedRecord replayedRecord_ok⟩

/-! ### When a record gets through -/

/-- What a built record is: a header and a ciphertext that the other side can
parse. -/
theorem buildTls13Message_spec {c : RecordCipher} (hs : c.Sound) {e e' : Epoch} {outSz : ℕ} {data record : List UInt8}
    {type : UInt8} (hlen : data.length ≤ 2 ^ 14) (hmac : c.macSize < 256)
    (hbuild : buildTls13Message c e outSz data type = (some record, e')) :
    ∃ ct k, ct = c.encrypt e.epochNumber e.nextSeqNumber
        (dtls13RlAddCiphertextHeader e (BitVec.ofNat 16 ct.length)) (data ++ type :: List.replicate k 0) ∧
      RN_MASK_SIZE ≤ ct.length ∧ ct.length ≤ MAX_TLS13_ENC_SZ ∧ ct.length - c.macSize ≤ MAX_TLS13_PLAIN_SZ ∧
      IsRecordOf c e ct record := by
  unfold buildTls13Message at hbuild
  dsimp only at hbuild
  generalize hk : UNIFIED_HEADER_SIZE + RN_MASK_SIZE - (UNIFIED_HEADER_SIZE + data.length + 1 + c.macSize) = k at hbuild
  split at hbuild
  · cases hbuild
  generalize hL : UNIFIED_HEADER_SIZE + data.length + 1 + c.macSize + k - UNIFIED_HEADER_SIZE = L at hbuild
  have hinner : (data ++ type :: List.replicate k (0 : UInt8)).length + c.macSize = L := by
    rw [← hL, List.length_append, List.length_cons, List.length_replicate]
    omega
  have hk' : k = 16 - (data.length + 1 + c.macSize) := by
    rw [← hk]
    unfold UNIFIED_HEADER_SIZE RN_MASK_SIZE
    omega
  rw [List.length_append, List.length_cons, List.length_replicate] at hinner
  have hct := hs.length e.epochNumber e.nextSeqNumber (dtls13RlAddCiphertextHeader e (BitVec.ofNat 16 L))
    (data ++ type :: List.replicate k 0)
  rw [List.length_append, List.length_cons, List.length_replicate] at hct
  refine ⟨c.encrypt e.epochNumber e.nextSeqNumber (dtls13RlAddCiphertextHeader e (BitVec.ofNat 16 L))
    (data ++ type :: List.replicate k 0), k, ?_, ?_, ?_, ?_, ?_⟩
  · rw [hct, hinner]
  · rw [hct]
    unfold RN_MASK_SIZE
    omega
  · rw [hct]
    unfold MAX_TLS13_ENC_SZ
    omega
  · rw [hct]
    unfold MAX_TLS13_PLAIN_SZ
    omega
  · have hrec : BitVec.ofNat 16 L = BitVec.ofNat 16 (c.encrypt e.epochNumber e.nextSeqNumber
        (dtls13RlAddCiphertextHeader e (BitVec.ofNat 16 L)) (data ++ type :: List.replicate k 0)).length := by
      rw [hct, hinner]
    have hp := parse_build c e (c.encrypt e.epochNumber e.nextSeqNumber
      (dtls13RlAddCiphertextHeader e (BitVec.ofNat 16 L)) (data ++ type :: List.replicate k 0))
      (by rw [hct]; unfold RN_MASK_SIZE; omega) (by rw [hct]; unfold UNIFIED_HEADER_SIZE; omega)
    rw [← hrec] at hp
    obtain ⟨record', henc, hrecord⟩ := hp
    obtain rfl : record' = record := Option.some.inj (henc.symm.trans (Prod.mk.inj hbuild).1)
    exact hrecord

theorem seqLowBits_header (length : ℕ) (seq : BitVec 64) (epochBits : BitVec 2) :
    (UnifiedHdrInfo.mk length (UInt8.ofBitVec ((seq.setWidth 16).setWidth 8))
      (UInt8.ofBitVec ((seq.setWidth 16 >>> 8).setWidth 8)) true epochBits).seqLowBits = (seq.setWidth 16, 16) :=
  congrArg (·, 16) (ato16_c16toa (seq.setWidth 16))

/-- A record that passes the check is noted by the update. -/
theorem updateWindow_isSome {e : Epoch} {seq : BitVec 64} (hc : dtls13CheckWindow e seq = true) :
    ∃ e', dtls13UpdateWindow e seq = some e' := by
  rcases Nat.lt_or_ge seq.toNat e.nextPeerSeqNumber.toNat with hlt | hge
  · have hw : e.nextPeerSeqNumber.toNat - seq.toNat ≤ SEQ_BITS := by
      rcases (checkWindow_iff e seq).mp hc with hge | ⟨hw, _⟩
      · omega
      · exact hw
    obtain ⟨e', he, _⟩ := updateWindow_lt hlt hw
    exact ⟨e', he⟩
  · have hnot : ¬ seq < e.nextPeerSeqNumber := by
      rw [BitVec.lt_def]
      omega
    unfold dtls13UpdateWindow
    rw [if_neg hnot]
    exact ⟨_, rfl⟩

/-- The header of a record is read, with the reconstructed number, in an epoch that the
receiver makes out and stands at. -/
theorem getDtls13RecordHeader_current {c : RecordCipher} {e : Epoch} {ct record : List UInt8}
    (hrec : IsRecordOf c e ct record) (hmin : RN_MASK_SIZE ≤ ct.length) {rx : Ssl} {i : Slot}
    (hzero : e.epochNumber ≠ 0)
    (hepoch : dtls13ReconstructEpochNumber rx (dtls13GetEpochBits e.epochNumber) = some e.epochNumber)
    (hdec : rx.dtls13DecryptEpoch = some i) (hn : (rx.dtls13Epochs i).epochNumber = e.epochNumber) :
    getDtls13RecordHeader c rx record =
      (rx, .ok ⟨ct.length, e.epochNumber,
        reconstructSeq (rx.dtls13Epochs i).nextPeerSeqNumber (e.nextSeqNumber.setWidth 16) 16,
        dtls13RlAddCiphertextHeader e (BitVec.ofNat 16 ct.length)⟩) := by
  have hmin16 : 16 ≤ ct.length := hmin
  have hlength : record.length = 5 + ct.length := hrec.length
  have hshort : ¬ record.length < 2 := by omega
  rw [← hrec.epochBits] at hepoch
  have hpart : ¬ record.length < dtls13GetUnifiedHeaderSize (record.headD 0) + RN_MASK_SIZE := by
    rw [hrec.headerSize, hlength]
    show ¬ 5 + ct.length < 5 + 16
    omega
  unfold getDtls13RecordHeader
  rw [if_neg hshort]
  simp only [hepoch, hzero, hdec, hn, if_false, if_true]
  unfold readHeader
  rw [if_neg hpart, hrec.parse]
  simp only [Except.map, dtls13ReconstructSeqNumber, seqLowBits_header]

/-- **When a record gets through**: a record that the sender built in an epoch that
the receiver makes out from its two bits, and at which its decrypting side stands,
is delivered, with its type and content, exactly when its number is recoverable
from the number expected next and the replay window lets it pass; otherwise
nothing is delivered. -/
theorem delivered_iff (c : RecordCipher) (hs : c.Sound) (e e' : Epoch) (outSz : ℕ) (data record : List UInt8)
    (type : UInt8) (hlen : data.length ≤ 2 ^ 14) (hmac : c.macSize < 256) (htype : type ≠ 0)
    (hbuild : buildTls13Message c e outSz data type = (some record, e')) (rx : Ssl) (i : Slot)
    (hzero : e.epochNumber ≠ 0)
    (hepoch : dtls13ReconstructEpochNumber rx (dtls13GetEpochBits e.epochNumber) = some e.epochNumber)
    (hdec : rx.dtls13DecryptEpoch = some i) (hn : (rx.dtls13Epochs i).epochNumber = e.epochNumber) :
    (processReply c rx record).2 =
      if Recoverable (2 ^ 16) (rx.dtls13Epochs i).nextPeerSeqNumber.toNat e.nextSeqNumber.toNat ∧
          dtls13CheckWindow (rx.dtls13Epochs i) e.nextSeqNumber = true then
        some ⟨e.epochNumber, e.nextSeqNumber, type, data⟩
      else none := by
  obtain ⟨ct, k, hct, hmin, henc, hplain, hrec⟩ := buildTls13Message_spec hs hlen hmac hbuild
  have hget := getDtls13RecordHeader_current hrec hmin hzero hepoch hdec hn
  have hseq := reconstructSeq_eq_iff (rx.dtls13Epochs i).nextPeerSeqNumber e.nextSeqNumber
    (e.nextSeqNumber.setWidth 16) (Or.inr rfl) (BitVec.toNat_setWidth 16 _)
  have hopen : ∀ seq, openRecord c ⟨ct.length, e.epochNumber, seq,
      dtls13RlAddCiphertextHeader e (BitVec.ofNat 16 ct.length)⟩ record =
        if seq = e.nextSeqNumber then some (type, data) else none := by
    intro seq
    have hbody : record.drop (dtls13RlAddCiphertextHeader e (BitVec.ofNat 16 ct.length)).length = ct := hrec.body
    unfold openRecord
    simp only [hbody, lt_irrefl, if_false, Nat.not_lt.mpr henc, Nat.not_lt.mpr hplain, or_self, List.take_length]
    split
    · next h =>
      rw [h]
      nth_rewrite 2 [hct]
      rw [hs.decrypt_encrypt, Option.bind_some, removeMsgInnerPadding_inner data htype k]
    · next h =>
      nth_rewrite 2 [hct]
      rw [hs.refuses _ _ _ _ _ _ h, Option.bind_none]
  unfold processReply
  rw [hrec.unified, hget]
  simp only [Bool.not_true, Bool.false_eq_true, if_false, hopen, hdec]
  by_cases hr : reconstructSeq (rx.dtls13Epochs i).nextPeerSeqNumber (e.nextSeqNumber.setWidth 16) 16 =
      e.nextSeqNumber
  · rw [hr, if_pos rfl]
    simp only [hseq.mp hr, true_and]
    cases hc : dtls13CheckWindow (rx.dtls13Epochs i) e.nextSeqNumber with
    | false => simp
    | true =>
      obtain ⟨e'', he⟩ := updateWindow_isSome hc
      simp [he]
  · rw [if_neg hr, if_neg fun h => hr (hseq.mpr h.1)]

/-- A receiver at epoch 3 that expects number `next`. -/
def receiverAt (next : BitVec 64) : Ssl :=
  { Ssl.init with
    dtls13Epochs := fun _ => { epochNumber := 3, nextPeerSeqNumber := next, isValid := true }
    dtls13PeerEpoch := 3 }

theorem delivered_iff_across_a_block :
    (processReply plainCipher (receiverAt 65530) ((buildTls13Message plainCipher
        { epochNumber := 3, nextSeqNumber := 65540 } 100 [1, 2, 3] 23).1.getD [])).2 =
      some ⟨3, 65540, 23, [1, 2, 3]⟩ := by
  have h := delivered_iff plainCipher plainCipher_sound { epochNumber := 3, nextSeqNumber := 65540 } _ 100
    [1, 2, 3] _ 23 (by decide) (by decide) (by decide)
    (show buildTls13Message plainCipher { epochNumber := 3, nextSeqNumber := 65540 } 100 [1, 2, 3] 23 =
      (some ((buildTls13Message plainCipher { epochNumber := 3, nextSeqNumber := 65540 } 100 [1, 2, 3] 23).1.getD []),
        { epochNumber := 3, nextSeqNumber := 65541 }) by decide +kernel)
    (receiverAt 65530) 0 (by decide) rfl rfl rfl
  exact h.trans (if_pos (by decide +kernel))

end Dtls13
end PqcDtls
