/-
# Retransmissions and acknowledgements

The reliable part of the handshake. The sender keeps every handshake fragment it
has sent on a list (`rtxRecords`), with the numbers of its last transmissions, and
sends the list again when it is told to (`Dtls13RtxSendBuffered`); the receiver
notes the number of every handshake record (`Dtls13RtxAddAck`), and sends the
numbers back in an ACK message, which takes fragments off the list
(`DoDtls13Ack`).

* `ack_message_read_back_iff`: an ACK message is read back as the numbers it was
  written of exactly when there are fewer than 4096. With more, the loop that
  writes it leaves its room, and the reader finds the first of them only.
* `acked_only_if_received`: in every run, over a network that loses, repeats and
  reorders both records and ACKs, a protected fragment leaves the list through an
  ACK only when the receiver has it.
* `left_after_ack_iff`: what an ACK leaves on the list. The numbers of a fragment
  are kept in three places, and the fourth transmission forgets the first three.
-/
import PqcDtls.Channel
import PqcDtls.HandshakeRecv

namespace PqcDtls
namespace Dtls13

open Lib
open Reassembly (SESSION_TICKET END_OF_EARLY_DATA HELLO_RETRY_REQUEST ENCRYPTED_EXTENSIONS CERTIFICATE
  SERVER_KEY_EXCHANGE CERTIFICATE_REQUEST SERVER_HELLO_DONE CERTIFICATE_VERIFY CLIENT_KEY_EXCHANGE FINISHED
  CERTIFICATE_STATUS KEY_UPDATE CHANGE_CIPHER_HS NO_SHAKE)

/-! ### Numbers of records -/

/-- `DTLS13_RN_SIZE`: 64 bits epoch and 64 bits sequence number. -/
def RN_SIZE : ℕ := 16

/-- `MAX_MSG_EXTRA`, with the 64 bytes of `WC_MAX_DIGEST_SIZE`. -/
def MAX_MSG_EXTRA : ℕ := 38 + 64

/-- `Dtls13RecordNumber`. -/
structure RecordNumber where
  epoch : BitVec 64
  seq : BitVec 64
  deriving DecidableEq, Repr

/-- The order in which the receiver keeps the numbers. -/
def RecordNumber.Before (a b : RecordNumber) : Prop := a.epoch < b.epoch ∨ (a.epoch = b.epoch ∧ a.seq < b.seq)

instance (a b : RecordNumber) : Decidable (a.Before b) := inferInstanceAs (Decidable (_ ∨ _))

/-- The loop of `Dtls13RtxAddAck` and the insertion after it. -/
def insertAck (n : RecordNumber) : List RecordNumber → List RecordNumber
  | [] => [n]
  | cur :: rest =>
    if cur = n then cur :: rest
    else if n.Before cur then n :: cur :: rest
    else cur :: insertAck n rest

/-- `Dtls13RtxAddAck`; `allocated` is what `Dtls13NewRecordNumber` says. -/
def dtls13RtxAddAck (seenRecords : List RecordNumber) (n : RecordNumber) (allocated : Bool) : List RecordNumber :=
  if allocated then insertAck n seenRecords else seenRecords

/-- `Dtls13GetAckListLength`. -/
def dtls13GetAckListLength (list : List RecordNumber) : BitVec 16 := BitVec.ofNat 16 (RN_SIZE * list.length)

/-- The bytes of a number in an ACK message. -/
def numberBytes (n : RecordNumber) : List UInt8 := bigEndian 8 n.epoch.toNat ++ bigEndian 8 n.seq.toNat

/-- What `Dtls13WriteAckMessage` leaves: the message, and the number of bytes that its
loop has written behind the room it asked `CheckAvailableSize` for. -/
structure AckWritten where
  message : List UInt8
  overrun : ℕ
  deriving DecidableEq

/-- `Dtls13WriteAckMessage`. The loop writes every number; the room and the length of
the message are made from the length in 16 bits. -/
def dtls13WriteAckMessage (isProtected : Bool) (list : List RecordNumber) : AckWritten :=
  let msgSz := (dtls13GetAckListLength list).toNat
  let written := bigEndian 2 msgSz ++ list.flatMap numberBytes
  let room := (if isProtected then MAX_MSG_EXTRA else 0) + 2 + msgSz
  { message := written.take (msgSz + 2), overrun := written.length - room }

/-- What `DoDtls13Ack` makes of a message it does not take. -/
inductive AckError where
  | bufferError
  | parseError
  deriving DecidableEq, Repr

/-- Number `i` of an ACK message. -/
def numberAt (input : List UInt8) (i : ℕ) : RecordNumber :=
  ⟨BitVec.ofNat 64 (ofBigEndian (excerpt input (2 + RN_SIZE * i) 8)),
    BitVec.ofNat 64 (ofBigEndian (excerpt input (2 + RN_SIZE * i + 8) 8))⟩

/-- The numbers that the loop of `DoDtls13Ack` reads. -/
def ackNumbers (input : List UInt8) : Except AckError (List RecordNumber) :=
  if input.length < 2 then .error .bufferError
  else
    let length := ofBigEndian (input.take 2)
    if input.length < 2 + length then .error .bufferError
    else if length % RN_SIZE ≠ 0 then .error .parseError
    else .ok ((List.range (length / RN_SIZE)).map (numberAt input))

section Numbers

variable {n : RecordNumber} {l : List RecordNumber}

theorem mem_insertAck {m : RecordNumber} : ∀ {l : List RecordNumber}, m ∈ insertAck n l ↔ m = n ∨ m ∈ l
  | [] => by simp [insertAck]
  | cur :: rest => by
    unfold insertAck
    split
    · next h =>
      subst h
      simp
    · split
      · simp
      · rw [List.mem_cons, mem_insertAck, List.mem_cons]
        tauto

theorem before_trans {a b c : RecordNumber} (h : a.Before b) (h' : b.Before c) : a.Before c := by
  rcases h with h | ⟨h, hs⟩ <;> rcases h' with h' | ⟨h', hs'⟩
  · exact Or.inl (BitVec.lt_trans h h')
  · exact Or.inl (h' ▸ h)
  · exact Or.inl (h ▸ h')
  · exact Or.inr ⟨h.trans h', BitVec.lt_trans hs hs'⟩

theorem before_or {a b : RecordNumber} (hne : a ≠ b) (h : ¬b.Before a) : a.Before b := by
  obtain ⟨ae, as⟩ := a
  obtain ⟨be, bs⟩ := b
  simp only [RecordNumber.Before, RecordNumber.mk.injEq, ne_eq, BitVec.lt_def, ← BitVec.toNat_inj] at *
  omega

/-- The list stays sorted, with no number twice. -/
theorem sorted_insertAck : ∀ {l : List RecordNumber}, l.Pairwise RecordNumber.Before →
    (insertAck n l).Pairwise RecordNumber.Before
  | [], _ => by simp [insertAck]
  | cur :: rest, h => by
    obtain ⟨hcur, hrest⟩ := List.pairwise_cons.mp h
    unfold insertAck
    split
    · exact h
    · next hne =>
      split
      · next hlt =>
        refine List.pairwise_cons.mpr ⟨fun b hb => ?_, h⟩
        rcases List.mem_cons.mp hb with rfl | hb
        · exact hlt
        · exact before_trans hlt (hcur b hb)
      · next hge =>
        refine List.pairwise_cons.mpr ⟨fun b hb => ?_, sorted_insertAck hrest⟩
        rcases mem_insertAck.mp hb with rfl | hb
        · exact before_or hne hge
        · exact hcur b hb

@[simp] theorem length_numberBytes (n : RecordNumber) : (numberBytes n).length = RN_SIZE := by
  simp [numberBytes, RN_SIZE]

theorem length_flatMap_numberBytes : ∀ l : List RecordNumber, (l.flatMap numberBytes).length = RN_SIZE * l.length
  | [] => rfl
  | n :: l => by
    rw [List.flatMap_cons, List.length_append, length_numberBytes, length_flatMap_numberBytes l, List.length_cons]
    ring

theorem ofNat_ofBigEndian (v : BitVec 64) : BitVec.ofNat 64 (ofBigEndian (bigEndian 8 v.toNat)) = v := by
  rw [ofBigEndian_bigEndian_of_lt (v := v.toNat) (by have := v.isLt; omega), BitVec.ofNat_toNat, BitVec.setWidth_eq]

/-- What stands at place `i` of the numbers is read as number `i`. -/
theorem numberAt_flatMap {head : List UInt8} (hhead : head.length = 2) {i : ℕ} (hi : i < l.length) :
    numberAt (head ++ l.flatMap numberBytes) i = l[i] := by
  have hsplit : l.flatMap numberBytes = (l.take i).flatMap numberBytes ++
      (bigEndian 8 l[i].epoch.toNat ++ (bigEndian 8 l[i].seq.toNat ++ (l.drop (i + 1)).flatMap numberBytes)) := by
    have hl : l = l.take i ++ l[i] :: l.drop (i + 1) := by simp
    calc l.flatMap numberBytes = (l.take i ++ l[i] :: l.drop (i + 1)).flatMap numberBytes := by rw [← hl]
      _ = _ := by rw [List.flatMap_append, List.flatMap_cons, numberBytes, List.append_assoc]
  have hpre : (head ++ (l.take i).flatMap numberBytes).length = 2 + RN_SIZE * i := by
    rw [List.length_append, hhead, length_flatMap_numberBytes, List.length_take, Nat.min_eq_left hi.le]
  unfold numberAt
  rw [hsplit, ← List.append_assoc, excerpt_middle _ _ _ hpre.symm (length_bigEndian 8 _).symm, ofNat_ofBigEndian,
    ← List.append_assoc, excerpt_middle _ _ _ _ (length_bigEndian 8 _).symm, ofNat_ofBigEndian]
  rw [List.length_append, hpre, length_bigEndian]

theorem ackNumbers_written (h : l.length < 4096) :
    ackNumbers (bigEndian 2 (RN_SIZE * l.length) ++ l.flatMap numberBytes) = .ok l := by
  have hlen := length_flatMap_numberBytes l
  have htake : (bigEndian 2 (RN_SIZE * l.length) ++ l.flatMap numberBytes).take 2 = bigEndian 2 (RN_SIZE * l.length) :=
    List.take_left' (length_bigEndian 2 _)
  have hval : ofBigEndian (bigEndian 2 (RN_SIZE * l.length)) = RN_SIZE * l.length :=
    ofBigEndian_bigEndian_of_lt (by unfold RN_SIZE; omega)
  unfold ackNumbers
  rw [htake, hval, List.length_append, hlen, length_bigEndian, if_neg (by omega)]
  dsimp only
  rw [if_neg (by omega), if_neg (by simp), Nat.mul_div_cancel_left _ (by decide)]
  congr 1
  apply List.ext_getElem
  · simp
  · intro i hi hi'
    simp only [List.getElem_map, List.getElem_range]
    exact numberAt_flatMap (length_bigEndian 2 _) hi'

theorem getAckListLength_toNat (l : List RecordNumber) :
    (dtls13GetAckListLength l).toNat = RN_SIZE * (l.length % 4096) := by
  rw [dtls13GetAckListLength, BitVec.toNat_ofNat]
  unfold RN_SIZE
  omega

/-- As many numbers as the length field can count are part of the message. -/
theorem writeAckMessage_message (isProtected : Bool) (l : List RecordNumber) :
    (dtls13WriteAckMessage isProtected l).message =
      bigEndian 2 (RN_SIZE * (l.length % 4096)) ++ (l.take (l.length % 4096)).flatMap numberBytes := by
  have hsplit : l.flatMap numberBytes = (l.take (l.length % 4096)).flatMap numberBytes ++
      (l.drop (l.length % 4096)).flatMap numberBytes := by
    rw [← List.flatMap_append, List.take_append_drop]
  have hlen : ((l.take (l.length % 4096)).flatMap numberBytes).length = RN_SIZE * (l.length % 4096) := by
    rw [length_flatMap_numberBytes, List.length_take, Nat.min_eq_left (Nat.mod_le _ _)]
  unfold dtls13WriteAckMessage
  dsimp only
  rw [getAckListLength_toNat, hsplit, ← List.append_assoc]
  apply List.take_left'
  rw [List.length_append, length_bigEndian, hlen, Nat.add_comm]

/-- **What is read back**, whatever was written. -/
theorem ackNumbers_of_write (isProtected : Bool) (l : List RecordNumber) :
    ackNumbers (dtls13WriteAckMessage isProtected l).message = .ok (l.take (l.length % 4096)) := by
  have hlen : (l.take (l.length % 4096)).length = l.length % 4096 := by
    rw [List.length_take, Nat.min_eq_left (Nat.mod_le _ _)]
  have hlt : (l.take (l.length % 4096)).length < 4096 := by
    rw [hlen]
    exact Nat.mod_lt _ (by decide)
  have hread := ackNumbers_written hlt
  rwa [hlen, ← writeAckMessage_message isProtected] at hread

/-- The loop stays in its room exactly below 4096 numbers. -/
theorem overrun_eq_zero_iff (isProtected : Bool) (l : List RecordNumber) :
    (dtls13WriteAckMessage isProtected l).overrun = 0 ↔ l.length < 4096 := by
  have hroom : (if isProtected then MAX_MSG_EXTRA else 0) ≤ MAX_MSG_EXTRA := by
    split <;> simp
  unfold dtls13WriteAckMessage
  dsimp only
  rw [getAckListLength_toNat, List.length_append, length_bigEndian, length_flatMap_numberBytes, Nat.sub_eq_zero_iff_le]
  unfold RN_SIZE MAX_MSG_EXTRA at *
  omega

theorem ackNumbers_of_inside {isProtected : Bool} (h : (dtls13WriteAckMessage isProtected l).overrun = 0) :
    ackNumbers (dtls13WriteAckMessage isProtected l).message = .ok l := by
  have hlt := (overrun_eq_zero_iff isProtected l).mp h
  rw [ackNumbers_of_write, Nat.mod_eq_of_lt hlt, List.take_length]

/-- **Fewer than 4096 numbers are read back as they were written**, and only then does
the loop stay in its room: the length field has 16 bits. The reader of a longer list
finds as many of its first numbers as the length modulo 4096 says. -/
theorem ack_message_read_back_iff (isProtected : Bool) (l : List RecordNumber) :
    (ackNumbers (dtls13WriteAckMessage isProtected l).message = .ok l ↔ l.length < 4096) ∧
      ((dtls13WriteAckMessage isProtected l).overrun = 0 ↔ l.length < 4096) ∧
      ackNumbers (dtls13WriteAckMessage isProtected l).message = .ok (l.take (l.length % 4096)) := by
  refine ⟨⟨fun h => ?_, fun h => ?_⟩, overrun_eq_zero_iff isProtected l, ackNumbers_of_write isProtected l⟩
  · rw [ackNumbers_of_write] at h
    have hle : l.length ≤ l.length % 4096 := (List.take_eq_self_iff l).mp (Except.ok.inj h)
    calc l.length ≤ l.length % 4096 := hle
      _ < 4096 := Nat.mod_lt _ (by decide)
  · exact ackNumbers_of_inside ((overrun_eq_zero_iff isProtected l).mpr h)

end Numbers

/-! ### The list of fragments to be sent again -/

/-- `DTLS13_RETRANS_RN_SIZE`. -/
abbrev RETRANS_RN_SIZE : ℕ := 3

/-- `Dtls13RtxRecord`. `sentAs` is not in the source: all the sequence numbers that
the record has gone out under, the last one first. -/
structure RtxRecord where
  data : List UInt8
  epoch : BitVec 64
  seq : Vector (BitVec 64) RETRANS_RN_SIZE
  rnIdx : ℕ
  handshakeType : UInt8
  sentAs : List (BitVec 64)
  deriving DecidableEq

/-- A handshake record on its way, with the number that the receiver reads. -/
structure WireRecord where
  number : RecordNumber
  handshakeType : UInt8
  data : List UInt8
  deriving DecidableEq

/-- `message_hash` of `enum HandShakeType`. -/
def MESSAGE_HASH : UInt8 := 254

/-- `Dtls13TypeIsEncrypted`. -/
def dtls13TypeIsEncrypted (handshakeType : UInt8) : Bool :=
  handshakeType ∈ [ENCRYPTED_EXTENSIONS, SESSION_TICKET, END_OF_EARLY_DATA, CERTIFICATE, SERVER_KEY_EXCHANGE,
    CERTIFICATE_REQUEST, SERVER_HELLO_DONE, CERTIFICATE_VERIFY, CLIENT_KEY_EXCHANGE, FINISHED, CERTIFICATE_STATUS,
    KEY_UPDATE, CHANGE_CIPHER_HS, MESSAGE_HASH, NO_SHAKE]

/-- `Dtls13RtxNewRecord`, in the epoch `e`. -/
def dtls13RtxNewRecord (e : Epoch) (data : List UInt8) (handshakeType : UInt8) : RtxRecord where
  data := data
  epoch := e.epochNumber
  seq := (Vector.replicate RETRANS_RN_SIZE 0).set 0 e.nextSeqNumber
  rnIdx := 1
  handshakeType := handshakeType
  sentAs := [e.nextSeqNumber]

/-- How `Dtls13RtxSendBuffered` notes one more number of a record. -/
def RtxRecord.note (r : RtxRecord) (seq : BitVec 64) : RtxRecord :=
  let rnIdx := if RETRANS_RN_SIZE ≤ r.rnIdx then 0 else r.rnIdx
  { r with seq := r.seq.setIfInBounds rnIdx seq, rnIdx := rnIdx + 1, sentAs := seq :: r.sentAs }

/-- `Dtls13RtxIsTrackedByRn`. -/
def dtls13RtxIsTrackedByRn (r : RtxRecord) (n : RecordNumber) : Bool :=
  r.epoch == n.epoch && (r.seq.toList.take r.rnIdx).any (· == n.seq)

/-- `Dtls13RtxRemoveRecord`. -/
def dtls13RtxRemoveRecord (records : List RtxRecord) (n : RecordNumber) : List RtxRecord :=
  records.eraseP (dtls13RtxIsTrackedByRn · n)

/-- `Dtls13RtxFlushBuffered`. -/
def dtls13RtxFlushBuffered (keepNewSessionTicket : Bool) (records : List RtxRecord) : List RtxRecord :=
  records.filter fun r => keepNewSessionTicket && r.handshakeType == SESSION_TICKET

/-- `DoDtls13Ack`: the list, whether the client's last flight is acknowledged (which
only counts in the state `WAIT_FINISHED_ACK`), whether to send the rest again, and the
bytes taken. -/
def doDtls13Ack (records : List RtxRecord) (waitFinishedAck : Bool) (input : List UInt8) :
    Except AckError (List RtxRecord × Bool × Bool × ℕ) :=
  (ackNumbers input).map fun numbers =>
    let records := numbers.foldl dtls13RtxRemoveRecord records
    (records, waitFinishedAck && records.isEmpty, !records.isEmpty, RN_SIZE * numbers.length + 2)

/-- What becomes of a record that is to be sent. -/
inductive SendResult where
  | ok
  /-- `WANT_WRITE`: it stays in the output buffer, and goes out from there. -/
  | wantWrite
  /-- Another error, before or after the record has taken its number. -/
  | failed (numbered : Bool)
  /-- No memory or no room, before anything else. -/
  | noRoom
  deriving DecidableEq, Repr

/-- The number that a record goes out under: a plaintext header has 16 bits for the
epoch and 48 for the number, and the upper bits of the number go into the epoch. -/
def wireNumber (e : Epoch) (handshakeType : UInt8) : RecordNumber :=
  if dtls13TypeIsEncrypted handshakeType then ⟨e.epochNumber, e.nextSeqNumber⟩
  else ⟨e.nextSeqNumber >>> 48, e.nextSeqNumber &&& 0xffffffffffff⟩

/-- The next number of slot `i` is taken. -/
def takeNumber (ssl : Ssl) (i : Slot) : Ssl :=
  let e := ssl.dtls13Epochs i
  { ssl with dtls13Epochs := Function.update ssl.dtls13Epochs i { e with nextSeqNumber := e.nextSeqNumber + 1 } }

/-- `Dtls13SendOneFragmentRtx`: the sender, its list and the record that goes out. -/
def dtls13SendOneFragmentRtx (ssl : Ssl) (records : List RtxRecord) (handshakeType : UInt8) (data : List UInt8)
    (result : SendResult) : Ssl × List RtxRecord × List WireRecord :=
  match ssl.dtls13EncryptEpoch with
  | none => (ssl, records, [])
  | some i =>
    let e := ssl.dtls13Epochs i
    let out := [⟨wireNumber e handshakeType, handshakeType, data⟩]
    let records' :=
      if handshakeType = HELLO_RETRY_REQUEST then records else records ++ [dtls13RtxNewRecord e data handshakeType]
    match result with
    | .noRoom => (ssl, records, [])
    | .failed false => (ssl, records, [])
    | .failed true => (takeNumber ssl i, records, out)
    | .wantWrite => (takeNumber ssl i, records', out)
    | .ok => (takeNumber ssl i, records', out)

/-- The encrypting side is turned to an epoch, if it does not stand there. -/
def turnTo (ssl : Ssl) (epoch : BitVec 64) : Option (Ssl × Slot) :=
  ssl.dtls13EncryptEpoch.bind fun i =>
    if (ssl.dtls13Epochs i).epochNumber = epoch then some (ssl, i)
    else (dtls13SetEpochKeys ssl epoch .encryptSideOnly).bind fun ssl => ssl.dtls13EncryptEpoch.map (ssl, ·)

/-- `Dtls13RtxSendBuffered`, with what becomes of each record. One that stays in the
output buffer goes to the end of the list, and ends the loop. -/
def dtls13RtxSendBuffered : Ssl → List RtxRecord → List SendResult → Ssl × List RtxRecord × List WireRecord
  | ssl, [], _ => (ssl, [], [])
  | ssl, r :: rest, results =>
    match results.headD .ok, turnTo ssl r.epoch with
    | .noRoom, _ => (ssl, r :: rest, [])
    | _, none => (ssl, r :: rest, [])
    | .failed false, some (ssl, _) => (ssl, r :: rest, [])
    | result, some (ssl, i) =>
      let e := ssl.dtls13Epochs i
      let out := ⟨wireNumber e r.handshakeType, r.handshakeType, r.data⟩
      let ssl := takeNumber ssl i
      match result with
      | .ok =>
        let (ssl, rest, wire) := dtls13RtxSendBuffered ssl rest results.tail
        (ssl, r.note e.nextSeqNumber :: rest, wire ++ [out])
      | .wantWrite => (ssl, rest ++ [r.note e.nextSeqNumber], [out])
      | _ => (ssl, r :: rest, [out])

/-! ### What the list keeps -/

/-- The places of a record hold the numbers of its last transmissions: one to three
of them, and after the third it starts over. -/
structure RtxRecord.Follows (r : RtxRecord) : Prop where
  ne : r.sentAs ≠ []
  idx : r.rnIdx = (r.sentAs.length - 1) % RETRANS_RN_SIZE + 1
  places : r.seq.toList.take r.rnIdx = (r.sentAs.take r.rnIdx).reverse

theorem follows_new (e : Epoch) (data : List UInt8) (handshakeType : UInt8) :
    (dtls13RtxNewRecord e data handshakeType).Follows :=
  ⟨by simp [dtls13RtxNewRecord], rfl, rfl⟩

theorem RtxRecord.Follows.note {r : RtxRecord} (h : r.Follows) (seq : BitVec 64) : (r.note seq).Follows := by
  obtain ⟨hne, hidx, hplaces⟩ := h
  have hpos : 0 < r.sentAs.length := List.length_pos_of_ne_nil hne
  have hlen : r.seq.toList.length = 3 := r.seq.length_toList
  unfold RETRANS_RN_SIZE at hidx
  refine ⟨by simp [RtxRecord.note], ?_, ?_⟩ <;> simp only [RtxRecord.note, RETRANS_RN_SIZE, List.length_cons,
    Vector.toList_setIfInBounds]
  · split <;> omega
  · split
    · rw [Nat.zero_add, List.take_set, List.take_succ_cons, List.take_zero]
      match r.seq.toList, hlen with
      | _ :: _, _ => rfl
    · next hroom =>
      rw [List.take_succ_cons, List.reverse_cons, ← hplaces, List.take_add_one, List.take_set_of_le le_rfl,
        List.getElem?_set_self (by omega)]
      rfl

/-- The fragment is known by its last transmissions. -/
theorem RtxRecord.Follows.tracked_iff {r : RtxRecord} (h : r.Follows) (n : RecordNumber) :
    dtls13RtxIsTrackedByRn r n = true ↔
      r.epoch = n.epoch ∧ n.seq ∈ r.sentAs.take ((r.sentAs.length - 1) % RETRANS_RN_SIZE + 1) := by
  rw [dtls13RtxIsTrackedByRn, h.places, ← h.idx]
  simp

/-- The records sent in an epoch have numbers below its next one. -/
def Above (sent : List WireRecord) (e : Epoch) : Prop :=
  ∀ w ∈ sent, w.number.epoch = e.epochNumber → w.number.seq.toNat < e.nextSeqNumber.toNat

/-- `k` more numbers are left in every epoch, of the 48 bits that a plaintext header
has for them. -/
def NumbersLeft (ssl : Ssl) (k : ℕ) : Prop := ∀ i, (ssl.dtls13Epochs i).nextSeqNumber.toNat + k < 2 ^ 48

/-- Plaintext messages are those of epoch 0. -/
def ClearAtZero (epoch : BitVec 64) (handshakeType : UInt8) : Prop :=
  dtls13TypeIsEncrypted handshakeType = false ↔ epoch = 0

/-- The fragment of a record as it was sent under one of its numbers. -/
def RtxRecord.wire (r : RtxRecord) (seq : BitVec 64) : WireRecord := ⟨⟨r.epoch, seq⟩, r.handshakeType, r.data⟩

/-- What holds of the sender: no number is used twice, and each record of the list has
been sent under its numbers, which no other record has. -/
structure RtxInv (ssl : Ssl) (records : List RtxRecord) (sent : List WireRecord) : Prop where
  tidy : Tidy ssl (Above sent)
  encrypt : ∀ i, ssl.dtls13EncryptEpoch = some i → (ssl.dtls13Epochs i).isValid = true
  unique : ∀ w ∈ sent, ∀ w' ∈ sent, w.number = w'.number → w = w'
  follows : ∀ r ∈ records, r.Follows
  clear : ∀ r ∈ records, ClearAtZero r.epoch r.handshakeType
  listed : ∀ r ∈ records, ∀ q ∈ r.sentAs, r.wire q ∈ sent
  apart : records.Pairwise fun r r' => r.epoch = r'.epoch → List.Disjoint r.sentAs r'.sentAs

section Sender

variable {ssl ssl' : Ssl} {records records' : List RtxRecord} {sent : List WireRecord} {i : Slot} {r : RtxRecord}
  {handshakeType : UInt8}

theorem above_same (e e' : Epoch) (h : Epoch.SameBut e e') (hP : Above sent e) : Above sent e' := by
  unfold Above at hP ⊢
  rw [h.epochNumber, h.nextSeqNumber]
  exact hP

theorem RtxInv.perm (h : RtxInv ssl records sent) (hp : records.Perm records') : RtxInv ssl records' sent where
  tidy := h.tidy
  encrypt := h.encrypt
  unique := h.unique
  follows r hr := h.follows r (hp.mem_iff.mpr hr)
  clear r hr := h.clear r (hp.mem_iff.mpr hr)
  listed r hr := h.listed r (hp.mem_iff.mpr hr)
  apart := (hp.pairwise_iff fun hd he => (hd he.symm).symm).mp h.apart

theorem RtxInv.sublist (h : RtxInv ssl records sent) (hs : records'.Sublist records) : RtxInv ssl records' sent where
  tidy := h.tidy
  encrypt := h.encrypt
  unique := h.unique
  follows r hr := h.follows r (hs.subset hr)
  clear r hr := h.clear r (hs.subset hr)
  listed r hr := h.listed r (hs.subset hr)
  apart := h.apart.sublist hs

theorem wireNumber_eq {e : Epoch} (hc : ClearAtZero e.epochNumber handshakeType)
    (hlt : e.nextSeqNumber.toNat < 2 ^ 48) :
    wireNumber e handshakeType = ⟨e.epochNumber, e.nextSeqNumber⟩ := by
  unfold wireNumber
  split
  · rfl
  · next henc =>
    rw [hc.mp (by simpa using henc)]
    congr 1
    · apply BitVec.eq_of_toNat_eq
      rw [BitVec.toNat_ushiftRight, Nat.shiftRight_eq_div_pow, Nat.div_eq_of_lt hlt]
      rfl
    · apply BitVec.eq_of_toNat_eq
      rw [BitVec.toNat_and]
      exact (Nat.and_two_pow_sub_one_eq_mod _ 48).trans (Nat.mod_eq_of_lt hlt)

theorem next_toNat (hleft : NumbersLeft ssl 1) :
    ((ssl.dtls13Epochs i).nextSeqNumber + 1).toNat = (ssl.dtls13Epochs i).nextSeqNumber.toNat + 1 := by
  have := hleft i
  rw [BitVec.toNat_add, Nat.mod_eq_of_lt]
  · rfl
  · have h1 : (1 : BitVec 64).toNat = 1 := rfl
    omega

/-- Taking a number leaves a table in which the record that got it counts as sent. -/
theorem tidy_takeNumber (h : Tidy ssl (Above sent)) (hv : (ssl.dtls13Epochs i).isValid = true)
    (hleft : NumbersLeft ssl 1) (out : List WireRecord)
    (hout : ∀ w ∈ out, w.number = ⟨(ssl.dtls13Epochs i).epochNumber, (ssl.dtls13Epochs i).nextSeqNumber⟩) :
    Tidy (takeNumber ssl i) (Above (out ++ sent)) := by
  refine h.update hv rfl hv ?_ ?_
  · intro w hw he
    show _ < (((ssl.dtls13Epochs i).nextSeqNumber + 1)).toNat
    rw [next_toNat hleft]
    rcases List.mem_append.mp hw with hw | hw
    · rw [hout w hw]
      exact Nat.lt_succ_self _
    · exact Nat.lt_succ_of_lt (h.each i hv w hw he)
  · intro e' he' hne w hw he
    rcases List.mem_append.mp hw with hw | hw
    · rw [hout w hw] at he
      exact absurd he.symm hne
    · exact he' w hw he

theorem numbersLeft_takeNumber {k : ℕ} (h : NumbersLeft ssl (k + 1)) : NumbersLeft (takeNumber ssl i) k := by
  intro j
  have hj := h j
  by_cases hji : j = i
  · subst hji
    simp only [takeNumber, Function.update_self]
    rw [next_toNat fun j => by have := h j; omega]
    omega
  · simp only [takeNumber, Function.update_of_ne hji]
    omega

theorem encrypt_takeNumber (h : ∀ j, ssl.dtls13EncryptEpoch = some j → (ssl.dtls13Epochs j).isValid = true) (j : Slot)
    (hj : (takeNumber ssl i).dtls13EncryptEpoch = some j) : ((takeNumber ssl i).dtls13Epochs j).isValid = true := by
  have hv := h j hj
  by_cases hji : j = i
  · subst hji
    simpa [takeNumber] using hv
  · simpa [takeNumber, Function.update_of_ne hji] using hv

/-- The next number of a slot is not in use. -/
theorem RtxInv.fresh (h : RtxInv ssl records sent) (hv : (ssl.dtls13Epochs i).isValid = true) :
    ∀ w ∈ sent, w.number ≠ ⟨(ssl.dtls13Epochs i).epochNumber, (ssl.dtls13Epochs i).nextSeqNumber⟩ := by
  intro w hw heq
  have hlt := h.tidy.each i hv w hw (by rw [heq])
  rw [heq] at hlt
  exact Nat.lt_irrefl _ hlt

theorem RtxInv.other (h : RtxInv ssl records sent) (hv : (ssl.dtls13Epochs i).isValid = true)
    (hleft : NumbersLeft ssl 1) : RtxInv (takeNumber ssl i) records sent where
  tidy := tidy_takeNumber h.tidy hv hleft [] (by simp)
  encrypt := encrypt_takeNumber h.encrypt
  unique := h.unique
  follows := h.follows
  clear := h.clear
  listed := h.listed
  apart := h.apart

/-- A handshake record goes out. -/
theorem RtxInv.out (h : RtxInv ssl records sent) (data : List UInt8) (hv : (ssl.dtls13Epochs i).isValid = true)
    (hleft : NumbersLeft ssl 1) (hc : ClearAtZero (ssl.dtls13Epochs i).epochNumber handshakeType) :
    RtxInv (takeNumber ssl i) records
      (⟨wireNumber (ssl.dtls13Epochs i) handshakeType, handshakeType, data⟩ :: sent) := by
  have hnum := wireNumber_eq hc (by have := hleft i; omega)
  have hfresh := h.fresh hv
  refine ⟨tidy_takeNumber h.tidy hv hleft [_] (by simpa using hnum), encrypt_takeNumber h.encrypt, ?_,
    h.follows, h.clear, fun r hr q hq => List.mem_cons_of_mem _ (h.listed r hr q hq), h.apart⟩
  rw [hnum]
  intro w hw w' hw' heq
  rcases List.mem_cons.mp hw with rfl | hw <;> rcases List.mem_cons.mp hw' with rfl | hw'
  · rfl
  · exact absurd heq.symm (hfresh w' hw')
  · exact absurd heq (hfresh w hw)
  · exact h.unique w hw w' hw' heq

/-- A record that has just gone out under the next number of its epoch comes onto the
list, if its other numbers are its own. -/
theorem RtxInv.list (h : RtxInv ssl records sent) (hv : (ssl.dtls13Epochs i).isValid = true)
    (hleft : NumbersLeft ssl 1) (hn : (ssl.dtls13Epochs i).epochNumber = r.epoch) (hf : r.Follows)
    (hc : ClearAtZero r.epoch r.handshakeType)
    (hq : ∀ q ∈ r.sentAs, q ≠ (ssl.dtls13Epochs i).nextSeqNumber →
      r.wire q ∈ sent ∧ ∀ r' ∈ records, r.epoch = r'.epoch → q ∉ r'.sentAs) :
    RtxInv (takeNumber ssl i) (r :: records)
      (⟨wireNumber (ssl.dtls13Epochs i) r.handshakeType, r.handshakeType, r.data⟩ :: sent) := by
  have hout := h.out r.data hv hleft (hn ▸ hc)
  have hnum := wireNumber_eq (hn ▸ hc) (by have := hleft i; omega)
  have hfresh := h.fresh hv
  refine ⟨hout.tidy, hout.encrypt, hout.unique, ?_, ?_, ?_, List.pairwise_cons.mpr ⟨?_, h.apart⟩⟩
  · simpa using ⟨hf, h.follows⟩
  · simpa using ⟨hc, h.clear⟩
  · intro r' hr' q hq'
    rcases List.mem_cons.mp hr' with rfl | hr'
    · by_cases hnext : q = (ssl.dtls13Epochs i).nextSeqNumber
      · rw [hnum, hn, hnext]
        exact List.mem_cons_self
      · exact List.mem_cons_of_mem _ (hq q hq' hnext).1
    · exact List.mem_cons_of_mem _ (h.listed r' hr' q hq')
  · intro r' hr' hepoch q hqr hqr'
    by_cases hnext : q = (ssl.dtls13Epochs i).nextSeqNumber
    · apply hfresh _ (h.listed r' hr' q hqr')
      rw [RtxRecord.wire, hn, hepoch, hnext]
    · exact (hq q hqr hnext).2 r' hr' hepoch hqr'

theorem RtxInv.add (h : RtxInv ssl records sent) (data : List UInt8) (hv : (ssl.dtls13Epochs i).isValid = true)
    (hleft : NumbersLeft ssl 1) (hc : ClearAtZero (ssl.dtls13Epochs i).epochNumber handshakeType) :
    RtxInv (takeNumber ssl i) (dtls13RtxNewRecord (ssl.dtls13Epochs i) data handshakeType :: records)
      (⟨wireNumber (ssl.dtls13Epochs i) handshakeType, handshakeType, data⟩ :: sent) := by
  apply h.list (r := dtls13RtxNewRecord (ssl.dtls13Epochs i) data handshakeType) hv hleft rfl (follows_new _ _ _) hc
  intro q hq hne
  exact absurd (List.mem_singleton.mp hq) hne

theorem RtxInv.resend (h : RtxInv ssl (r :: records) sent) (hv : (ssl.dtls13Epochs i).isValid = true)
    (hleft : NumbersLeft ssl 1) (hn : (ssl.dtls13Epochs i).epochNumber = r.epoch) :
    RtxInv (takeNumber ssl i) (r.note (ssl.dtls13Epochs i).nextSeqNumber :: records)
      (⟨wireNumber (ssl.dtls13Epochs i) r.handshakeType, r.handshakeType, r.data⟩ :: sent) := by
  have hrest : RtxInv ssl records sent := h.sublist (List.sublist_cons_self _ _)
  have hr : r ∈ r :: records := List.mem_cons_self
  apply hrest.list (r := r.note (ssl.dtls13Epochs i).nextSeqNumber) hv hleft hn ((h.follows r hr).note _) (h.clear r hr)
  intro q hq hne
  have hold : q ∈ r.sentAs := (List.mem_cons.mp hq).resolve_left hne
  exact ⟨h.listed r hr q hold, fun r' hr' hepoch => (List.pairwise_cons.mp h.apart).1 r' hr' hepoch hold⟩

/-- Turning to an epoch changes nothing but where the encrypting side stands. -/
theorem turnTo_spec (henc : ∀ j, ssl.dtls13EncryptEpoch = some j → (ssl.dtls13Epochs j).isValid = true)
    {epoch : BitVec 64} (h : turnTo ssl epoch = some (ssl', i)) :
    ssl' = { ssl with dtls13EncryptEpoch := some i } ∧ (ssl.dtls13Epochs i).isValid = true ∧
      (ssl.dtls13Epochs i).epochNumber = epoch := by
  obtain ⟨j, hj, h⟩ := Option.bind_eq_some_iff.mp h
  split at h
  · next hn =>
    obtain ⟨rfl, rfl⟩ := Prod.mk.inj (Option.some.inj h)
    exact ⟨by rw [← hj], henc _ hj, hn⟩
  · obtain ⟨ssl₁, hset, h⟩ := Option.bind_eq_some_iff.mp h
    obtain ⟨k, hk, heq⟩ := Option.map_eq_some_iff.mp h
    obtain ⟨rfl, rfl⟩ := Prod.mk.inj heq
    unfold dtls13SetEpochKeys at hset
    split at hset
    · cases hset
    · next m hm =>
      obtain ⟨hn, hv⟩ := getEpoch_some hm
      split at hset
      · cases hset
      · obtain rfl := Option.some.inj hset
        obtain rfl : m = k := by simpa using hk
        exact ⟨by simp, hv, hn⟩

theorem RtxInv.turn (h : RtxInv ssl records sent) (hv : (ssl.dtls13Epochs i).isValid = true) :
    RtxInv { ssl with dtls13EncryptEpoch := some i } records sent where
  tidy := ⟨h.tidy.clear, h.tidy.distinct, h.tidy.each⟩
  encrypt j hj := by
    obtain rfl := Option.some.inj hj
    exact hv
  unique := h.unique
  follows := h.follows
  clear := h.clear
  listed := h.listed
  apart := h.apart

theorem RtxInv.setKeys (h : RtxInv ssl records sent) {n : BitVec 64} {side : Side}
    (hset : dtls13SetEpochKeys ssl n side = some ssl') : RtxInv ssl' records sent := by
  unfold dtls13SetEpochKeys at hset
  split at hset
  · cases hset
  · next m hm =>
    split at hset
    · cases hset
    · obtain rfl := Option.some.inj hset
      refine ⟨⟨h.tidy.clear, h.tidy.distinct, h.tidy.each⟩, fun i hi => ?_, h.unique, h.follows, h.clear, h.listed,
        h.apart⟩
      dsimp only at hi ⊢
      split at hi
      · obtain rfl := Option.some.inj hi
        exact (getEpoch_some hm).2
      · exact h.encrypt i hi

/-- Making an epoch keeps the numbers apart, unless it makes one again that records
were sent in. -/
theorem RtxInv.newEpoch (h : RtxInv ssl records sent) {n : BitVec 64} {side : Side}
    (hfresh : dtls13GetEpoch ssl n = none → ∀ w ∈ sent, w.number.epoch ≠ n)
    (hnew : dtls13NewEpoch ssl n side = some ssl') : RtxInv ssl' records sent := by
  have htidy : Tidy ssl' (Above sent) := by
    apply h.tidy.newEpoch above_same _ hnew
    intro hnone w hw he
    exact absurd he (hfresh hnone w hw)
  obtain ⟨henc, -, hkeeps⟩ := newEpoch_directions h.tidy.clear hnew
  refine ⟨htidy, fun i hi => ?_, h.unique, h.follows, h.clear, h.listed, h.apart⟩
  rw [henc] at hi
  exact hkeeps i (h.encrypt i hi)

/-- A record later: the same fragment, sent under more numbers. -/
def RtxRecord.Later (r r' : RtxRecord) : Prop :=
  r'.epoch = r.epoch ∧ r'.handshakeType = r.handshakeType ∧ r'.data = r.data ∧ r.sentAs ⊆ r'.sentAs

/-- Sending the rest of the list again keeps the fragments, and all that holds of the
list. -/
theorem rtxInv_sendBuffered : ∀ (rest pre : List RtxRecord) (results : List SendResult) (ssl : Ssl)
    (sent : List WireRecord), RtxInv ssl (pre ++ rest) sent → NumbersLeft ssl rest.length →
    RtxInv (dtls13RtxSendBuffered ssl rest results).1 (pre ++ (dtls13RtxSendBuffered ssl rest results).2.1)
        ((dtls13RtxSendBuffered ssl rest results).2.2 ++ sent) ∧
      ∀ r ∈ rest, ∃ r' ∈ (dtls13RtxSendBuffered ssl rest results).2.1, r.Later r'
  | [], pre, results, ssl, sent, h, _ => by simpa [dtls13RtxSendBuffered] using h
  | r :: rest, pre, results, ssl, sent, h, hleft => by
    have hself : ∀ l : List RtxRecord, ∀ r ∈ l, ∃ r' ∈ l, r.Later r' :=
      fun l r hr => ⟨r, hr, rfl, rfl, rfl, List.Subset.refl _⟩
    have hnote : ∀ seq, r.Later (r.note seq) := fun seq => ⟨rfl, rfl, rfl, List.subset_cons_self _ _⟩
    cases hturn : turnTo ssl r.epoch with
    | none =>
      have heq : dtls13RtxSendBuffered ssl (r :: rest) results = (ssl, r :: rest, []) := by
        rw [dtls13RtxSendBuffered, hturn]
        cases results.headD .ok <;> rfl
      rw [heq]
      exact ⟨h, hself _⟩
    | some p =>
      obtain ⟨ssl₁, i⟩ := p
      obtain ⟨rfl, hv, hn⟩ := turnTo_spec h.encrypt hturn
      have hturned := h.turn hv
      have hone : NumbersLeft { ssl with dtls13EncryptEpoch := some i } 1 := by
        intro j
        have : (ssl.dtls13Epochs j).nextSeqNumber.toNat + (rest.length + 1) < 2 ^ 48 := hleft j
        dsimp only
        omega
      have hfront : (pre ++ r :: rest).Perm (r :: (pre ++ rest)) := List.perm_middle
      have hsent := (hturned.perm hfront).resend hv hone hn
      unfold dtls13RtxSendBuffered
      rw [hturn]
      cases results.headD .ok with
      | noRoom => exact ⟨h, hself _⟩
      | failed numbered =>
        cases numbered with
        | false => exact ⟨hturned, hself _⟩
        | true => exact ⟨hturned.out _ hv hone (hn ▸ h.clear r (by simp)), hself _⟩
      | wantWrite =>
        refine ⟨hsent.perm ?_, fun r' hr' => ?_⟩
        · rw [← List.append_assoc]
          exact (List.perm_append_singleton _ _).symm
        · rcases List.mem_cons.mp hr' with rfl | hr'
          · exact ⟨_, List.mem_append_right _ List.mem_cons_self, hnote _⟩
          · exact ⟨r', List.mem_append_left _ hr', rfl, rfl, rfl, List.Subset.refl _⟩
      | ok =>
        have hrec := rtxInv_sendBuffered rest (pre ++ [r.note (ssl.dtls13Epochs i).nextSeqNumber]) results.tail
          (takeNumber { ssl with dtls13EncryptEpoch := some i } i) _ (hsent.perm (by
            rw [List.append_assoc]
            exact List.perm_middle.symm)) (numbersLeft_takeNumber hleft)
        obtain ⟨hinv, hlater⟩ := hrec
        dsimp only at hinv hlater ⊢
        refine ⟨?_, fun r' hr' => ?_⟩
        · rw [List.append_assoc] at hinv ⊢
          exact hinv
        · rcases List.mem_cons.mp hr' with rfl | hr'
          · exact ⟨_, List.mem_cons_self, hnote _⟩
          · obtain ⟨r'', hr'', hl⟩ := hlater r' hr'
            exact ⟨r'', List.mem_cons_of_mem _ hr'', hl⟩

/-- What an ACK does not take is left. -/
theorem mem_or_tracked : ∀ {l : List RecordNumber} {records : List RtxRecord}, r ∈ records →
    r ∈ l.foldl dtls13RtxRemoveRecord records ∨ ∃ n ∈ l, dtls13RtxIsTrackedByRn r n = true
  | [], _, hr => Or.inl hr
  | n :: l, records, hr => by
    by_cases ht : dtls13RtxIsTrackedByRn r n = true
    · exact Or.inr ⟨n, List.mem_cons_self, ht⟩
    · have hmem : r ∈ records.eraseP (dtls13RtxIsTrackedByRn · n) := (List.mem_eraseP_of_neg (by exact ht)).mpr hr
      rcases mem_or_tracked hmem with h | ⟨m, hm, h⟩
      · exact Or.inl h
      · exact Or.inr ⟨m, List.mem_cons_of_mem _ hm, h⟩

theorem sublist_foldl_remove : ∀ (l : List RecordNumber) (records : List RtxRecord),
    (l.foldl dtls13RtxRemoveRecord records).Sublist records
  | [], _ => List.Sublist.refl _
  | _ :: l, _ => (sublist_foldl_remove l _).trans List.eraseP_sublist

/-- Only one record is known by a number, so that taking off the first is taking off
all. -/
theorem RtxInv.remove (h : RtxInv ssl records sent) (n : RecordNumber) :
    dtls13RtxRemoveRecord records n = records.filter fun r => !dtls13RtxIsTrackedByRn r n := by
  unfold dtls13RtxRemoveRecord
  induction records with
  | nil => rfl
  | cons r rest ih =>
    have hrest := (List.pairwise_cons.mp h.apart).1
    by_cases ht : dtls13RtxIsTrackedByRn r n = true
    · rw [List.eraseP_cons_of_pos (p := (dtls13RtxIsTrackedByRn · n)) ht,
        List.filter_cons_of_neg (by simpa using ht), List.filter_eq_self.mpr]
      intro r' hr'
      obtain ⟨he, hq⟩ := ((h.follows r List.mem_cons_self).tracked_iff n).mp ht
      have hnot : ¬dtls13RtxIsTrackedByRn r' n = true := by
        intro ht'
        obtain ⟨he', hq'⟩ := ((h.follows r' (List.mem_cons_of_mem _ hr')).tracked_iff n).mp ht'
        exact hrest r' hr' (he.trans he'.symm) (List.mem_of_mem_take hq) (List.mem_of_mem_take hq')
      simpa using hnot
    · rw [List.eraseP_cons_of_neg (p := (dtls13RtxIsTrackedByRn · n)) ht,
        List.filter_cons_of_pos (by simpa using ht), ih (h.sublist (List.sublist_cons_self _ _))]

/-- What an ACK leaves on the list. -/
theorem RtxInv.foldl_remove (h : RtxInv ssl records sent) (l : List RecordNumber) :
    l.foldl dtls13RtxRemoveRecord records = records.filter fun r => l.all fun n => !dtls13RtxIsTrackedByRn r n := by
  induction l generalizing records with
  | nil => simp
  | cons n l ih =>
    have hrest : RtxInv ssl (dtls13RtxRemoveRecord records n) sent := h.sublist List.eraseP_sublist
    rw [List.foldl_cons, ih hrest, h.remove n, List.filter_filter]
    simp [Bool.and_comm]

end Sender

/-! ### The two sides and the network -/

/-- One direction of the handshake: the sender, the numbers the receiver has noted and
the ACKs it has sent. What follows is history: what was sent, the fragments that came
onto the list as they were sent first, those given up by a flush, what was received,
and the numbers noted since the receiver's list was last emptied. -/
structure AckLink where
  tx : Ssl
  rtxRecords : List RtxRecord
  seenRecords : List RecordNumber
  acks : List (List UInt8)
  sent : List WireRecord
  buffered : List WireRecord
  flushed : List RtxRecord
  received : List WireRecord
  recent : List RecordNumber

/-- What happens on the link. -/
inductive AckEv where
  /-- The sender sends a fragment, sends its list again, sends something else. -/
  | send (handshakeType : UInt8) (data : List UInt8) (result : SendResult)
  | resend (results : List SendResult)
  | other
  /-- `Dtls13NewEpoch`, `Dtls13SetEpochKeys` and the current epochs of the sender. -/
  | newEpoch (n : BitVec 64) (side : Side)
  | setKeys (n : BitVec 64) (side : Side)
  | epochs (own peer : BitVec 64) (done : Bool)
  /-- The sender's list is given up, as the next flight has come. -/
  | flush (keepNewSessionTicket : Bool)
  /-- A handshake record arrives. -/
  | receive (w : WireRecord) (allocated : Bool)
  /-- The receiver forgets the numbers, as it sends a flight. -/
  | flushAcks
  | sendAck (isProtected : Bool)
  /-- An ACK message arrives. -/
  | ack (waitFinishedAck : Bool) (message : List UInt8)

/-- The link after an event; it is undefined when the writer of an ACK message has left
its room, as what lies behind is not the model's. -/
def AckLink.step (s : AckLink) : AckEv → Option AckLink
  | .send handshakeType data result =>
    let (tx, records, wire) := dtls13SendOneFragmentRtx s.tx s.rtxRecords handshakeType data result
    some { s with
      tx := tx, rtxRecords := records, sent := wire ++ s.sent
      buffered := if records.length = s.rtxRecords.length then s.buffered else wire ++ s.buffered }
  | .resend results =>
    let (tx, records, wire) := dtls13RtxSendBuffered s.tx s.rtxRecords results
    some { s with tx := tx, rtxRecords := records, sent := wire ++ s.sent }
  | .other => some { s with tx := s.tx.dtls13EncryptEpoch.elim s.tx (takeNumber s.tx) }
  | .newEpoch n side => some { s with tx := (dtls13NewEpoch s.tx n side).getD s.tx }
  | .setKeys n side => some { s with tx := (dtls13SetEpochKeys s.tx n side).getD s.tx }
  | .epochs own peer done =>
    some { s with tx := { s.tx with dtls13Epoch := own, dtls13PeerEpoch := peer, handShakeDone := done } }
  | .flush keep =>
    some { s with
      rtxRecords := dtls13RtxFlushBuffered keep s.rtxRecords
      flushed := s.rtxRecords.filter (fun r => !(keep && r.handshakeType == SESSION_TICKET)) ++ s.flushed }
  | .receive w allocated =>
    some { s with
      seenRecords := dtls13RtxAddAck s.seenRecords w.number allocated
      received := w :: s.received
      recent := if allocated then w.number :: s.recent else s.recent }
  | .flushAcks => some { s with seenRecords := [], recent := [] }
  | .sendAck isProtected =>
    let ack := dtls13WriteAckMessage isProtected s.seenRecords
    if ack.overrun = 0 then some { s with acks := ack.message :: s.acks, seenRecords := [], recent := [] } else none
  | .ack waitFinishedAck message =>
    match doDtls13Ack s.rtxRecords waitFinishedAck message with
    | .error _ => some s
    | .ok (records, _) => some { s with rtxRecords := records }

/-- The link of a new connection. -/
def AckLink.init : AckLink := ⟨Ssl.init, [], [], [], [], [], [], [], []⟩

/-- What the runs are asked: the numbers of an epoch do not run out and its messages
are in the clear in epoch 0 only, the sender does not make an epoch again that it has
sent in, what the receiver takes as protected was sent, and the ACKs are the receiver's. -/
def AckOk (s : AckLink) : AckEv → Prop
  | .send handshakeType _ _ => NumbersLeft s.tx 1 ∧
      ∀ i, s.tx.dtls13EncryptEpoch = some i → ClearAtZero (s.tx.dtls13Epochs i).epochNumber handshakeType
  | .resend _ => NumbersLeft s.tx s.rtxRecords.length
  | .other => NumbersLeft s.tx 1
  | .newEpoch n _ => dtls13GetEpoch s.tx n = none → ∀ w ∈ s.sent, w.number.epoch ≠ n
  | .receive w _ => w.number.epoch ≠ 0 → w ∈ s.sent
  | .ack _ message => message ∈ s.acks
  | _ => True

instance (ssl : Ssl) (k : ℕ) : Decidable (NumbersLeft ssl k) := inferInstanceAs (Decidable (∀ _ : Fin EPOCH_SIZE, _))

instance (epoch : BitVec 64) (handshakeType : UInt8) : Decidable (ClearAtZero epoch handshakeType) :=
  inferInstanceAs (Decidable (_ ↔ _))

instance decidableAckOk (s : AckLink) : ∀ ev : AckEv, Decidable (AckOk s ev)
  | .send .. => inferInstanceAs (Decidable (_ ∧ ∀ _ : Fin EPOCH_SIZE, _))
  | .resend _ => inferInstanceAs (Decidable (NumbersLeft _ _))
  | .other => inferInstanceAs (Decidable (NumbersLeft _ _))
  | .newEpoch .. => inferInstanceAs (Decidable (_ → ∀ w ∈ s.sent, _))
  | .receive .. => inferInstanceAs (Decidable (_ → _ ∈ _))
  | .ack .. => inferInstanceAs (Decidable (_ ∈ _))
  | .setKeys .. | .epochs .. | .flush _ | .flushAcks | .sendAck _ => isTrue trivial

/-- The record of the list holds a fragment that was sent so. -/
def RtxRecord.Holds (r : RtxRecord) (w : WireRecord) : Prop := w.number.seq ∈ r.sentAs ∧ r.wire w.number.seq = w

/-- What every state of the link satisfies. -/
structure AckInv (s : AckLink) : Prop where
  rtx : RtxInv s.tx s.rtxRecords s.sent
  authentic : ∀ w ∈ s.received, w.number.epoch ≠ 0 → w ∈ s.sent
  seen : ∀ n, n ∈ s.seenRecords ↔ n ∈ s.recent
  came : ∀ n ∈ s.recent, ∃ w ∈ s.received, w.number = n
  acks : ∀ message ∈ s.acks, ∃ l, ackNumbers message = .ok l ∧ ∀ n ∈ l, ∃ w ∈ s.received, w.number = n
  covered : ∀ b ∈ s.buffered, b.number.epoch ≠ 0 → (∃ r ∈ s.rtxRecords, r.Holds b) ∨ (∃ r ∈ s.flushed, r.Holds b) ∨
    ∃ w ∈ s.received, w.handshakeType = b.handshakeType ∧ w.data = b.data

section Link

variable {s t : AckLink}

theorem ackInv_init : AckInv AckLink.init := by
  refine ⟨⟨tidy_init (by simp [Above, AckLink.init]), fun i h => ?_, ?_, ?_, ?_, ?_, List.Pairwise.nil⟩, ?_, ?_, ?_, ?_,
    ?_⟩
  · obtain rfl : 0 = i := Option.some.inj h
    rfl
  all_goals simp [AckLink.init]

/-- A fragment on the list is held there later too. -/
theorem RtxRecord.Later.holds {r r' : RtxRecord} {w : WireRecord} (h : r.Later r') (hw : r.Holds w) : r'.Holds w := by
  obtain ⟨he, ht, hd, hsub⟩ := h
  refine ⟨hsub hw.1, ?_⟩
  rw [RtxRecord.wire, he, ht, hd]
  exact hw.2

/-- A record goes out; the list and what is on it stay. -/
theorem AckInv.out (h : AckInv s) {tx : Ssl} {w : WireRecord} (htx : RtxInv tx s.rtxRecords (w :: s.sent)) :
    AckInv { s with tx := tx, sent := w :: s.sent } :=
  ⟨htx, fun w hw he => List.mem_cons_of_mem _ (h.authentic w hw he), h.seen, h.came, h.acks, h.covered⟩

/-- A record goes out and onto the list. -/
theorem AckInv.add (h : AckInv s) {i : Slot} {handshakeType : UInt8} {data : List UInt8}
    (hv : (s.tx.dtls13Epochs i).isValid = true) (hleft : NumbersLeft s.tx 1)
    (hc : ClearAtZero (s.tx.dtls13Epochs i).epochNumber handshakeType) :
    AckInv { s with
      tx := takeNumber s.tx i
      rtxRecords := s.rtxRecords ++ [dtls13RtxNewRecord (s.tx.dtls13Epochs i) data handshakeType]
      sent := ⟨wireNumber (s.tx.dtls13Epochs i) handshakeType, handshakeType, data⟩ :: s.sent
      buffered := ⟨wireNumber (s.tx.dtls13Epochs i) handshakeType, handshakeType, data⟩ :: s.buffered } := by
  have hadd := (h.rtx.add data hv hleft hc).perm (List.perm_append_singleton _ _).symm
  refine ⟨hadd, fun w hw he => List.mem_cons_of_mem _ (h.authentic w hw he), h.seen, h.came, h.acks, fun b hb he => ?_⟩
  rcases List.mem_cons.mp hb with rfl | hb
  · refine Or.inl ⟨_, List.mem_append_right _ List.mem_cons_self, ?_⟩
    rw [wireNumber_eq hc (by have := hleft i; omega)]
    exact ⟨List.mem_singleton.mpr rfl, rfl⟩
  · rcases h.covered b hb he with ⟨r, hr, hheld⟩ | h
    · exact Or.inl ⟨r, List.mem_append_left _ hr, hheld⟩
    · exact Or.inr h

theorem AckInv.send (h : AckInv s) {handshakeType : UInt8} {data : List UInt8} {result : SendResult}
    (hok : AckOk s (.send handshakeType data result)) (ht : s.step (.send handshakeType data result) = some t) :
    AckInv t := by
  obtain rfl := Option.some.inj ht
  obtain ⟨hleft, hclear⟩ := hok
  cases hi : s.tx.dtls13EncryptEpoch with
  | none => simpa using h
  | some i =>
    have hv := h.rtx.encrypt i hi
    have hc := hclear i hi
    have hout := h.out (h.rtx.out data hv hleft hc)
    have hlisted : AckInv { s with
        tx := takeNumber s.tx i
        rtxRecords := if handshakeType = HELLO_RETRY_REQUEST then s.rtxRecords
          else s.rtxRecords ++ [dtls13RtxNewRecord (s.tx.dtls13Epochs i) data handshakeType]
        sent := ⟨wireNumber (s.tx.dtls13Epochs i) handshakeType, handshakeType, data⟩ :: s.sent
        buffered := if (if handshakeType = HELLO_RETRY_REQUEST then s.rtxRecords
            else s.rtxRecords ++ [dtls13RtxNewRecord (s.tx.dtls13Epochs i) data handshakeType]).length =
              s.rtxRecords.length then s.buffered
          else ⟨wireNumber (s.tx.dtls13Epochs i) handshakeType, handshakeType, data⟩ :: s.buffered } := by
      by_cases hrr : handshakeType = HELLO_RETRY_REQUEST
      · simpa [hrr] using hout
      · simpa [hrr] using h.add hv hleft hc
    cases result with
    | noRoom => simpa using h
    | failed numbered =>
      cases numbered with
      | false => simpa using h
      | true => simpa using hout
    | wantWrite => exact hlisted
    | ok => exact hlisted

theorem AckInv.resend (h : AckInv s) {results : List SendResult} (hok : AckOk s (.resend results))
    (ht : s.step (.resend results) = some t) : AckInv t := by
  obtain ⟨hrtx, hlater⟩ := rtxInv_sendBuffered s.rtxRecords [] results s.tx s.sent h.rtx hok
  obtain rfl := Option.some.inj ht
  refine ⟨hrtx, fun w hw he => List.mem_append_right _ (h.authentic w hw he), h.seen, h.came, h.acks, fun b hb he => ?_⟩
  rcases h.covered b hb he with ⟨r, hr, hheld⟩ | h
  · obtain ⟨r', hr', hl⟩ := hlater r hr
    exact Or.inl ⟨r', hr', hl.holds hheld⟩
  · exact Or.inr h

theorem AckInv.table (h : AckInv s) {tx : Ssl} (htx : RtxInv tx s.rtxRecords s.sent) : AckInv { s with tx := tx } :=
  ⟨htx, h.authentic, h.seen, h.came, h.acks, h.covered⟩

theorem doDtls13Ack_of (records : List RtxRecord) (waitFinishedAck : Bool) {message : List UInt8}
    {l : List RecordNumber} (hl : ackNumbers message = .ok l) :
    ∃ b c k, doDtls13Ack records waitFinishedAck message = .ok (l.foldl dtls13RtxRemoveRecord records, b, c, k) := by
  rw [doDtls13Ack, hl]
  exact ⟨_, _, _, rfl⟩

/-- **An ACK takes a fragment only if it has come**: the number that it is taken by was
received, and under this number nothing else was sent. -/
theorem AckInv.ack (h : AckInv s) {waitFinishedAck : Bool} {message : List UInt8}
    (hok : AckOk s (.ack waitFinishedAck message)) (ht : s.step (.ack waitFinishedAck message) = some t) :
    AckInv t := by
  obtain ⟨l, hl, hcame⟩ := h.acks message hok
  obtain ⟨_, _, _, hdo⟩ := doDtls13Ack_of s.rtxRecords waitFinishedAck hl
  rw [AckLink.step, hdo] at ht
  obtain rfl := Option.some.inj ht
  refine ⟨h.rtx.sublist (sublist_foldl_remove l _), h.authentic, h.seen, h.came, h.acks, fun b hb he => ?_⟩
  rcases h.covered b hb he with ⟨r, hr, hq, hheld⟩ | hrest
  · rcases mem_or_tracked (l := l) hr with hleft | ⟨n, hn, htracked⟩
    · exact Or.inl ⟨r, hleft, hq, hheld⟩
    · obtain ⟨hepoch, hseq⟩ := ((h.rtx.follows r hr).tracked_iff n).mp htracked
      obtain ⟨w, hw, hwn⟩ := hcame n hn
      have hre : r.epoch = b.number.epoch := congrArg (·.number.epoch) hheld
      have hsent : w ∈ s.sent := h.authentic w hw (by rw [hwn, ← hepoch, hre]; exact he)
      have hnum : (r.wire n.seq).number = n := by rw [RtxRecord.wire, hepoch]
      have hsame := h.rtx.unique w hsent _ (h.rtx.listed r hr n.seq (List.mem_of_mem_take hseq)) (hwn.trans hnum.symm)
      refine Or.inr (Or.inr ⟨w, hw, ?_, ?_⟩)
      · rw [hsame, ← hheld]
        rfl
      · rw [hsame, ← hheld]
        rfl
  · exact Or.inr hrest

/-- A record arrives, and may be noted. -/
theorem AckInv.receive (h : AckInv s) {w : WireRecord} (hw : w.number.epoch ≠ 0 → w ∈ s.sent) (allocated : Bool) :
    AckInv { s with
      seenRecords := dtls13RtxAddAck s.seenRecords w.number allocated
      received := w :: s.received
      recent := if allocated then w.number :: s.recent else s.recent } := by
  refine ⟨h.rtx, fun w' hw' he => ?_, fun n => ?_, fun n hn => ?_, fun m hm => ?_, fun b hb he => ?_⟩
  · rcases List.mem_cons.mp hw' with rfl | hw'
    · exact hw he
    · exact h.authentic w' hw' he
  · cases allocated with
    | false => exact h.seen n
    | true => simp [dtls13RtxAddAck, mem_insertAck, h.seen n]
  · have hold : n ∈ s.recent → ∃ w' ∈ w :: s.received, w'.number = n := by
      intro hn
      obtain ⟨w', hw', heq⟩ := h.came n hn
      exact ⟨w', List.mem_cons_of_mem _ hw', heq⟩
    cases allocated with
    | false => exact hold hn
    | true =>
      rcases List.mem_cons.mp hn with rfl | hn
      · exact ⟨w, List.mem_cons_self, rfl⟩
      · exact hold hn
  · obtain ⟨l, hl, hcame⟩ := h.acks m hm
    refine ⟨l, hl, fun n hn => ?_⟩
    obtain ⟨w', hw', heq⟩ := hcame n hn
    exact ⟨w', List.mem_cons_of_mem _ hw', heq⟩
  · rcases h.covered b hb he with hr | hr | ⟨w', hw', heq⟩
    · exact Or.inl hr
    · exact Or.inr (Or.inl hr)
    · exact Or.inr (Or.inr ⟨w', List.mem_cons_of_mem _ hw', heq⟩)

theorem sendAck_eq_some {isProtected : Bool} (ht : s.step (.sendAck isProtected) = some t) :
    (dtls13WriteAckMessage isProtected s.seenRecords).overrun = 0 ∧
      { s with
        acks := (dtls13WriteAckMessage isProtected s.seenRecords).message :: s.acks
        seenRecords := []
        recent := [] } = t := by
  rw [AckLink.step] at ht
  split_ifs at ht with hinside
  exact ⟨hinside, Option.some.inj ht⟩

theorem AckInv.step (h : AckInv s) {ev : AckEv} (hok : AckOk s ev) (ht : s.step ev = some t) : AckInv t := by
  cases ev with
  | send => exact h.send hok ht
  | resend => exact h.resend hok ht
  | ack => exact h.ack hok ht
  | other =>
    obtain rfl := Option.some.inj ht
    cases hi : s.tx.dtls13EncryptEpoch with
    | none => exact h
    | some i => exact h.table (h.rtx.other (h.rtx.encrypt i hi) hok)
  | newEpoch n side =>
    obtain rfl := Option.some.inj ht
    cases hnew : dtls13NewEpoch s.tx n side with
    | none => exact h
    | some tx => exact h.table (h.rtx.newEpoch hok hnew)
  | setKeys n side =>
    obtain rfl := Option.some.inj ht
    cases hset : dtls13SetEpochKeys s.tx n side with
    | none => exact h
    | some tx => exact h.table (h.rtx.setKeys hset)
  | epochs own peer done =>
    obtain rfl := Option.some.inj ht
    exact h.table ⟨⟨h.rtx.tidy.clear, h.rtx.tidy.distinct, h.rtx.tidy.each⟩, h.rtx.encrypt, h.rtx.unique, h.rtx.follows,
      h.rtx.clear, h.rtx.listed, h.rtx.apart⟩
  | flush keep =>
    obtain rfl := Option.some.inj ht
    refine ⟨h.rtx.sublist List.filter_sublist, h.authentic, h.seen, h.came, h.acks, fun b hb he => ?_⟩
    rcases h.covered b hb he with ⟨r, hr, hheld⟩ | ⟨r, hr, hheld⟩ | hcame
    · by_cases hkeep : (keep && r.handshakeType == SESSION_TICKET) = true
      · exact Or.inl ⟨r, List.mem_filter.mpr ⟨hr, hkeep⟩, hheld⟩
      · refine Or.inr (Or.inl ⟨r, List.mem_append_left _ (List.mem_filter.mpr ⟨hr, ?_⟩), hheld⟩)
        rw [Bool.not_eq_true', Bool.eq_false_iff]
        exact hkeep
    · exact Or.inr (Or.inl ⟨r, List.mem_append_right _ hr, hheld⟩)
    · exact Or.inr (Or.inr hcame)
  | receive w allocated =>
    obtain rfl := Option.some.inj ht
    exact h.receive hok allocated
  | flushAcks =>
    obtain rfl := Option.some.inj ht
    exact ⟨h.rtx, h.authentic, by simp, by simp, h.acks, h.covered⟩
  | sendAck isProtected =>
    obtain ⟨hinside, rfl⟩ := sendAck_eq_some ht
    refine ⟨h.rtx, h.authentic, by simp, by simp, fun m hm => ?_, h.covered⟩
    rcases List.mem_cons.mp hm with rfl | hm
    · exact ⟨_, ackNumbers_of_inside hinside, fun n hn => h.came n ((h.seen n).mp hn)⟩
    · exact h.acks m hm

/-- Every state of a run satisfies the invariant. -/
theorem ackInv_run {evs : List AckEv} (hm : Meets AckLink.step AckOk AckLink.init evs)
    (hrun : run AckLink.step AckLink.init evs = some s) : AckInv s :=
  run_invariant_of_meets AckLink.step (fun _ _ _ h hok ht => h.step hok ht) _ _ _ ackInv_init hm hrun

/-- The receiver notes each number once, in order, and so do its ACKs. -/
structure Orderly (s : AckLink) : Prop where
  seen : s.seenRecords.Pairwise RecordNumber.Before
  acks : ∀ message ∈ s.acks, ∃ l, ackNumbers message = .ok l ∧ l.Pairwise RecordNumber.Before

theorem Orderly.step (h : Orderly s) {ev : AckEv} (ht : s.step ev = some t) : Orderly t := by
  cases ev with
  | receive w allocated =>
    obtain rfl := Option.some.inj ht
    cases allocated with
    | false => exact ⟨h.seen, h.acks⟩
    | true => exact ⟨sorted_insertAck h.seen, h.acks⟩
  | flushAcks =>
    obtain rfl := Option.some.inj ht
    exact ⟨List.Pairwise.nil, h.acks⟩
  | sendAck isProtected =>
    obtain ⟨hinside, rfl⟩ := sendAck_eq_some ht
    refine ⟨List.Pairwise.nil, fun m hm => ?_⟩
    rcases List.mem_cons.mp hm with rfl | hm
    · exact ⟨_, ackNumbers_of_inside hinside, h.seen⟩
    · exact h.acks m hm
  | ack waitFinishedAck message =>
    rw [AckLink.step] at ht
    split at ht
    all_goals
      obtain rfl := Option.some.inj ht
      exact ⟨h.seen, h.acks⟩
  | send | resend | other | newEpoch | setKeys | epochs | flush =>
    obtain rfl := Option.some.inj ht
    exact ⟨h.seen, h.acks⟩

/-- Every ACK of a run lists its numbers in increasing order, whatever was received. -/
theorem orderly_run {evs : List AckEv} (hrun : run AckLink.step AckLink.init evs = some s) : Orderly s :=
  run_invariant_of_meets AckLink.step (fun _ _ _ h _ ht => h.step ht) _ _ _ ⟨List.Pairwise.nil, by simp [AckLink.init]⟩
    (meets_true AckLink.step _ _) hrun

end Link

/-- **No fragment is given up before it has come.** In every run, whatever the network
does with the records and the ACKs, a protected fragment that came onto the sender's
list is still there, was given up by a flush, or has been received as it was sent. -/
theorem acked_only_if_received (evs : List AckEv) (s : AckLink) (hm : Meets AckLink.step AckOk AckLink.init evs)
    (hrun : run AckLink.step AckLink.init evs = some s) :
    ∀ b ∈ s.buffered, b.number.epoch ≠ 0 → (∃ r ∈ s.rtxRecords, r.Holds b) ∨ (∃ r ∈ s.flushed, r.Holds b) ∨
      ∃ w ∈ s.received, w.handshakeType = b.handshakeType ∧ w.data = b.data :=
  (ackInv_run hm hrun).covered

/-- A certificate is sent twice in epoch 2, and the second transmission arrives. -/
def secondArrives : List AckEv :=
  [.newEpoch 2 .encryptAndDecryptSide, .setKeys 2 .encryptSideOnly, .send CERTIFICATE [7] .ok, .resend [.ok],
    .receive ⟨⟨2, 1⟩, CERTIFICATE, [7]⟩ true]

/-- The ACK for it. -/
def ackOfSecond : List UInt8 := [0, 16, 0, 0, 0, 0, 0, 0, 0, 2, 0, 0, 0, 0, 0, 0, 0, 1]

/-- The ACK for the second transmission takes the certificate off the list. -/
theorem acked_only_if_received_second :
    ∃ s, run AckLink.step AckLink.init (secondArrives ++ [.sendAck true, .ack false ackOfSecond]) = some s ∧
      s.rtxRecords = [] ∧ ∃ w ∈ s.received, w.handshakeType = CERTIFICATE ∧ w.data = [7] := by
  have hend : (run AckLink.step AckLink.init (secondArrives ++ [.sendAck true, .ack false ackOfSecond])).map
      (fun s => (s.rtxRecords, s.flushed, s.buffered)) = some ([], [], [⟨⟨2, 0⟩, CERTIFICATE, [7]⟩]) := by
    decide +kernel
  obtain ⟨s, hs, hlists⟩ := Option.map_eq_some_iff.mp hend
  obtain ⟨hrtx, hlists⟩ := Prod.mk.inj hlists
  obtain ⟨hflushed, hbuffered⟩ := Prod.mk.inj hlists
  refine ⟨s, hs, hrtx, ?_⟩
  rcases acked_only_if_received _ s (by decide +kernel) hs ⟨⟨2, 0⟩, CERTIFICATE, [7]⟩ (by simp [hbuffered])
    (by decide) with ⟨r, hr, -⟩ | ⟨r, hr, -⟩ | hcame
  · simp [hrtx] at hr
  · simp [hflushed] at hr
  · exact hcame

/-- **What an ACK leaves on the list.** In every run in which the receiver writes an ACK
in state `s₁` and the ACK arrives in state `s₂`, whatever happens before and between, the
fragments that stay are those of which none of the last transmissions (one to three of
them, and one again after the third) had come and been noted when the ACK was written. -/
theorem left_after_ack_iff (evs₁ evs₂ : List AckEv) (s₁ s₂ s₃ : AckLink) (isProtected waitFinishedAck : Bool)
    (message : List UInt8) (hm : Meets AckLink.step AckOk AckLink.init (evs₁ ++ .sendAck isProtected :: evs₂))
    (h₁ : run AckLink.step AckLink.init evs₁ = some s₁)
    (hw : (dtls13WriteAckMessage isProtected s₁.seenRecords).message = message)
    (h₂ : run AckLink.step s₁ (.sendAck isProtected :: evs₂) = some s₂)
    (h₃ : s₂.step (.ack waitFinishedAck message) = some s₃) :
    s₃.rtxRecords = s₂.rtxRecords.filter fun r =>
      (r.sentAs.take ((r.sentAs.length - 1) % RETRANS_RN_SIZE + 1)).all fun q => ⟨r.epoch, q⟩ ∉ s₁.recent := by
  have hinv₁ : AckInv s₁ := ackInv_run (meets_of_append _ hm) h₁
  have hinv₂ : AckInv s₂ := by
    apply ackInv_run hm
    rw [run_append, h₁]
    exact h₂
  have hread : ackNumbers message = .ok s₁.seenRecords := by
    obtain ⟨t, ht, -⟩ := (run_cons _).mp h₂
    rw [← hw]
    exact ackNumbers_of_inside (sendAck_eq_some ht).1
  obtain ⟨_, _, _, hdo⟩ := doDtls13Ack_of s₂.rtxRecords waitFinishedAck hread
  rw [AckLink.step, hdo] at h₃
  rw [← Option.some.inj h₃]
  dsimp only
  rw [hinv₂.rtx.foldl_remove]
  apply List.filter_congr
  intro r hr
  -- the numbers that the record is known by are those of its last transmissions
  rw [Bool.eq_iff_iff, List.all_eq_true, List.all_eq_true]
  constructor
  · intro hnone q hq
    rw [decide_eq_true_eq, ← hinv₁.seen]
    intro hseen
    have hnot := hnone _ hseen
    rw [Bool.not_eq_true', ← Bool.not_eq_true] at hnot
    exact hnot (((hinv₂.rtx.follows r hr).tracked_iff _).mpr ⟨rfl, hq⟩)
  · intro hnone n hn
    rw [Bool.not_eq_true', ← Bool.not_eq_true, (hinv₂.rtx.follows r hr).tracked_iff]
    rintro ⟨hepoch, hq⟩
    have hnot := hnone _ hq
    rw [decide_eq_true_eq, ← hinv₁.seen, hepoch] at hnot
    exact hnot hn

/-- The ACK for the second transmission arrives when the fragment has been sent four
times: it is not known by that number any more, and stays. -/
theorem left_after_ack_iff_forgotten : ∃ s₁ s₂ s₃, run AckLink.step AckLink.init secondArrives = some s₁ ∧
    run AckLink.step s₁ [.sendAck true, .resend [.ok], .resend [.ok]] = some s₂ ∧
      s₂.step (.ack false ackOfSecond) = some s₃ ∧ ⟨2, 1⟩ ∈ s₁.recent ∧ s₃.rtxRecords.length = 1 := by
  obtain ⟨s₁, h₁⟩ := Option.ne_none_iff_exists'.mp
    (by decide : run AckLink.step AckLink.init secondArrives ≠ none)
  have hrecent : s₁.recent = [⟨2, 1⟩] ∧ dtls13WriteAckMessage true s₁.seenRecords = ⟨ackOfSecond, 0⟩ := by
    rw [← Option.some.inj h₁]
    decide
  have hfour : (run AckLink.step AckLink.init
      (secondArrives ++ [.sendAck true, .resend [.ok], .resend [.ok]])).map (·.rtxRecords.map (·.sentAs)) =
      some [[3, 2, 1, 0]] := by
    decide +kernel
  rw [run_append, h₁, Option.bind_some] at hfour
  obtain ⟨s₂, h₂, hsent⟩ := Option.map_eq_some_iff.mp hfour
  have hread : ackNumbers ackOfSecond = .ok [⟨2, 1⟩] := by decide
  obtain ⟨s₃, h₃⟩ : ∃ s₃, s₂.step (.ack false ackOfSecond) = some s₃ := by
    obtain ⟨_, _, _, hdo⟩ := doDtls13Ack_of s₂.rtxRecords false hread
    exact ⟨_, by rw [AckLink.step, hdo]⟩
  have hleft := left_after_ack_iff secondArrives [.resend [.ok], .resend [.ok]] s₁ s₂ s₃ true false ackOfSecond
    (by decide +kernel) h₁ (congrArg AckWritten.message hrecent.2) h₂ h₃
  refine ⟨s₁, s₂, s₃, h₁, h₂, h₃, by simp [hrecent.1], ?_⟩
  obtain ⟨r, hr, hsentAs⟩ := List.map_eq_singleton_iff.mp hsent
  rw [hleft, hr, hrecent.1]
  simp [hsentAs, RETRANS_RN_SIZE]

end Dtls13
end PqcDtls
