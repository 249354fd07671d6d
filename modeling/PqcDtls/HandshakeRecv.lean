/-
# Receiving handshake messages

`_Dtls13HandshakeRecv`, `DtlsMsgStore` and `Dtls13ProcessBufferedMessages`
(`dtls13.c`, `internal.c`): a record with a fragment of a handshake message is
handed on at once when it is the whole message that is due, and is stored
otherwise, until the message it is of is complete and due.

What the rest of the library does with a message (`DoTls13HandShakeMsgType`) and
what it allows is the environment (`Env`): any result, at any time.

* `handled_in_order`: in every run without stray fragments, what is handed on is
  the peer's messages, whole, in the order of their numbers, and a message is
  handed on again only if it was not taken before.
-/
import PqcDtls.Fragments

namespace PqcDtls
namespace Reassembly

open Lib

/-! ### The header of a fragment -/

/-- `DTLS_HANDSHAKE_HEADER_SZ`. -/
def HANDSHAKE_HEADER_SZ : ℕ := 12

/-- `DTLS_POOL_SZ`. -/
def POOL_SZ : ℕ := 20

/-- `enum HandShakeType`, as far as it is used here. -/
def HELLO_REQUEST : UInt8 := 0
def CLIENT_HELLO : UInt8 := 1
def SERVER_HELLO : UInt8 := 2
def HELLO_VERIFY_REQUEST : UInt8 := 3
def SESSION_TICKET : UInt8 := 4
def END_OF_EARLY_DATA : UInt8 := 5
def HELLO_RETRY_REQUEST : UInt8 := 6
def ENCRYPTED_EXTENSIONS : UInt8 := 8
def CERTIFICATE : UInt8 := 11
def SERVER_KEY_EXCHANGE : UInt8 := 12
def CERTIFICATE_REQUEST : UInt8 := 13
def SERVER_HELLO_DONE : UInt8 := 14
def CERTIFICATE_VERIFY : UInt8 := 15
def CLIENT_KEY_EXCHANGE : UInt8 := 16
def FINISHED : UInt8 := 20
def CERTIFICATE_STATUS : UInt8 := 22
def KEY_UPDATE : UInt8 := 24
def CHANGE_CIPHER_HS : UInt8 := 55

/-- What `GetDtlsHandShakeHeader` reads. -/
structure HsHeader where
  type : UInt8
  messageLength : ℕ
  messageSeq : ℕ
  fragOff : ℕ
  fragLength : ℕ
  deriving DecidableEq

/-- `Dtls13HandshakeAddHeaderFrag`. -/
def dtls13HandshakeAddHeaderFrag (h : HsHeader) : List UInt8 :=
  h.type :: (bigEndian 3 h.messageLength ++ bigEndian 2 h.messageSeq ++ bigEndian 3 h.fragOff ++
    bigEndian 3 h.fragLength)

/-- `GetDtlsHandShakeHeader`; `versionOk` is the check of the record's version. -/
def getDtlsHandShakeHeader (versionOk : Bool) (input : List UInt8) : Option HsHeader :=
  if input.length < HANDSHAKE_HEADER_SZ then none
  else
    let type := input.headD 0
    if versionOk ∨ type = CLIENT_HELLO ∨ type = HELLO_VERIFY_REQUEST ∨ type = SERVER_HELLO then
      some ⟨type, ofBigEndian (excerpt input 1 3), ofBigEndian (excerpt input 4 2), ofBigEndian (excerpt input 6 3),
        ofBigEndian (excerpt input 9 3)⟩
    else none

/-! ### The state and the environment -/

/-- What `DoTls13HandShakeMsgType` returns. -/
inductive HsResult where
  | ok
  | wantWrite
  | pending
  | error
  deriving DecidableEq

/-- A message handed to `DoTls13HandShakeMsgType`, what came back, and whether it
was taken, so that the next message is due. -/
structure Call where
  type : UInt8
  body : List UInt8
  result : HsResult
  taken : Bool
  deriving DecidableEq

/-- The part of the session that is used here, with the messages handed on so
far and the number of records. -/
structure HsState where
  expectedPeerHandshakeNumber : ℕ := 0
  rxMsgList : List DtlsMsg := []
  rxMsgListSz : ℕ := 0
  calls : List Call := []
  records : ℕ := 0
  deriving DecidableEq

/-- What becomes of the first fragment of a ClientHello before the peer is
verified. -/
inductive ChFragment where
  | refused
  | verified
  | stopped
  deriving DecidableEq

/-- `ssl->options.side`. -/
inductive ConnectionEnd where
  | clientEnd
  | serverEnd
  deriving DecidableEq

/-- The rest of the library, as this code sees it. -/
structure Env where
  side : ConnectionEnd
  /-- `DoTls13HandShakeMsgType`, and how far it leaves the index. -/
  doTls13HandShakeMsgType : HsState → UInt8 → List UInt8 → HsResult × ℕ
  /-- `EarlySanityCheckMsgReceived` and `Dtls13CheckEpoch`. -/
  sanityCheck : HsState → HsHeader → BitVec 16 → Bool
  dtls13ChFrag : Bool
  /-- `DoClientHelloStateless` and `chGoodCb`. -/
  chFragment : HsState → HsHeader → List UInt8 → ChFragment
  /-- A server that has not sent its first reply. -/
  beforeFirstReply : HsState → Bool
  dtlsStateful : HsState → Bool
  handShakeDone : HsState → Bool
  usingAsyncCrypto : Bool

/-- A record with a handshake message, and what the allocator does. -/
structure HsRecord where
  heap : Heap
  curEpoch : BitVec 16
  /-- `decryptedCur`: the record was decrypted. -/
  encrypted : Bool
  versionOk : Bool
  padSz : ℕ
  input : List UInt8

/-- What `_Dtls13HandshakeRecv` returns. -/
inductive HsRet where
  | ok
  | parseError
  | sanityError
  | incompleteData
  | bufferError
  | tooManyFragments
  | fatalError
  | unexpectedMessage
  | handler (r : HsResult)
  deriving DecidableEq

/-! ### Storing and handing on -/

/-- `DtlsMsgFind`: whether a message is the one looked for. -/
def isMsg (epoch : BitVec 16) (seq : ℕ) (msg : DtlsMsg) : Bool := decide (msg.epoch = epoch ∧ msg.seq = seq)

/-- `DtlsMsgInsert`. -/
def dtlsMsgInsert (item : DtlsMsg) : List DtlsMsg → List DtlsMsg
  | [] => [item]
  | cur :: tail =>
    if item.epoch.toNat ≤ cur.epoch.toNat ∧ item.seq < cur.seq then item :: cur :: tail
    else cur :: dtlsMsgInsert item tail

/-- `DtlsMsgSet` of the message that `DtlsMsgFind` finds in the list. -/
def setFound (heap : Heap) (f : Frag) : List DtlsMsg → Option (List DtlsMsg)
  | [] => some []
  | msg :: tail =>
    if isMsg f.epoch f.seq msg then (dtlsMsgSet heap msg f).map fun p => p.1 :: tail
    else (setFound heap f tail).map (msg :: ·)

/-- `DtlsMsgStore`. -/
def dtlsMsgStore (heap : Heap) (st : HsState) (f : Frag) : Option HsState :=
  if st.rxMsgList.any (isMsg f.epoch f.seq) then
    -- if this fails, the data is just dropped
    (setFound heap f st.rxMsgList).map fun l => { st with rxMsgList := l }
  else if heap.ok then
    (dtlsMsgSet heap (dtlsMsgNew f.totalLen) f).map fun (msg, r) =>
      if r = .ok then
        { st with rxMsgList := dtlsMsgInsert msg st.rxMsgList, rxMsgListSz := st.rxMsgListSz + 1 }
      else st
  else some st

/-- `MsgCheckEncryption`, for DTLS 1.3. -/
def msgCheckEncryption (type : UInt8) (encrypted : Bool) : Bool :=
  if type ∈ [CLIENT_HELLO, SERVER_HELLO, HELLO_VERIFY_REQUEST, HELLO_RETRY_REQUEST, CHANGE_CIPHER_HS] then !encrypted
  else if type ∈ [HELLO_REQUEST, SESSION_TICKET, END_OF_EARLY_DATA, ENCRYPTED_EXTENSIONS, CERTIFICATE,
      SERVER_KEY_EXCHANGE, CERTIFICATE_REQUEST, SERVER_HELLO_DONE, CERTIFICATE_VERIFY, CLIENT_KEY_EXCHANGE, FINISHED,
      CERTIFICATE_STATUS, KEY_UPDATE] then encrypted
  else false

/-- `Dtls13MsgWasProcessed`. -/
def dtls13MsgWasProcessed (env : Env) (st : HsState) : HsState :=
  if env.dtlsStateful st then
    { st with expectedPeerHandshakeNumber := (st.expectedPeerHandshakeNumber + 1) % 2 ^ 16 }
  else st

/-- The loop of `Dtls13ProcessBufferedMessages`, over the list that is left. -/
def bufferedLoop (env : Env) : List DtlsMsg → HsState → HsState × HsRet
  | [], st => (st, .ok)
  | msg :: rest, st =>
    if st.expectedPeerHandshakeNumber ≠ msg.seq ∨ msg.ready = false then (st, .ok)
    else if msgCheckEncryption msg.type msg.encrypted = false then (st, .unexpectedMessage)
    else
      let body := msg.raw.drop HANDSHAKE_HEADER_SZ
      let r := (env.doTls13HandShakeMsgType st msg.type body).1
      -- WANT_WRITE means that the message is done and the output is to be flushed
      let taken := decide (r = .ok ∨ r = .wantWrite ∨
        (msg.type = CERTIFICATE_REQUEST ∧ env.handShakeDone st = true ∧ r = .pending))
      let st := { st with calls := st.calls ++ [⟨msg.type, body, r, taken⟩] }
      if taken then
        let st := dtls13MsgWasProcessed env { st with rxMsgList := rest, rxMsgListSz := st.rxMsgListSz - 1 }
        if r = .ok then bufferedLoop env rest st else (st, .handler r)
      else (st, .handler r)

/-- `Dtls13ProcessBufferedMessages`. -/
def dtls13ProcessBufferedMessages (env : Env) (st : HsState) : HsState × HsRet := bufferedLoop env st.rxMsgList st

/-- `Dtls13NextMessageComplete`. -/
def dtls13NextMessageComplete (st : HsState) : Bool :=
  match st.rxMsgList with
  | [] => false
  | msg :: _ => msg.ready && decide (msg.seq = st.expectedPeerHandshakeNumber)

/-- What follows when a message was stored or taken. -/
def handOn (env : Env) (st : HsState) : HsState × HsRet :=
  if dtls13NextMessageComplete st then dtls13ProcessBufferedMessages env st else (st, .ok)

/-- `Dtls13AcceptFragmented`. `IsEncryptionOn(ssl, 0)` is asked before a record is
decrypted, and it is decrypted if it says so: it is the record's `encrypted`. -/
def dtls13AcceptFragmented (env : Env) (st : HsState) (encrypted : Bool) (type : UInt8) : Bool :=
  if encrypted then true
  else if env.side = .clientEnd ∧ type = SERVER_HELLO then true
  else decide (env.side = .serverEnd ∧ type = CLIENT_HELLO ∧ env.dtls13ChFrag = true ∧ env.dtlsStateful st = true)

/-- The middle of `_Dtls13HandshakeRecv`: a fragment that is not refused. -/
def takeFragment (env : Env) (st : HsState) (ev : HsRecord) (h : HsHeader) : Option (HsState × HsRet × ℕ) :=
  if ¬(h.fragOff = 0 ∧ h.fragLength = h.messageLength) ∨ st.expectedPeerHandshakeNumber < h.messageSeq ∨
      env.usingAsyncCrypto = true then
    if st.rxMsgListSz < POOL_SZ then
      (dtlsMsgStore ev.heap st ⟨h.messageSeq, ev.curEpoch, h.type, h.fragOff,
          excerpt ev.input HANDSHAKE_HEADER_SZ h.fragLength, h.messageLength, ev.encrypted⟩).map fun st =>
        ((handOn env st).1, (handOn env st).2, HANDSHAKE_HEADER_SZ + h.fragLength + ev.padSz)
    else some (st, .tooManyFragments, 0)
  else
    let body := excerpt ev.input HANDSHAKE_HEADER_SZ h.messageLength
    let p := env.doTls13HandShakeMsgType st h.type body
    let st := { st with calls := st.calls ++ [⟨h.type, body, p.1, decide (p.1 = .ok)⟩] }
    if p.1 = .ok then
      let st := dtls13MsgWasProcessed env st
      some ((handOn env st).1, (handOn env st).2, p.2)
    else some (st, .handler p.1, p.2)

/-- `_Dtls13HandshakeRecv` from the check of the lengths on. -/
def recvFragment (env : Env) (st : HsState) (ev : HsRecord) (h : HsHeader) : Option (HsState × HsRet × ℕ) :=
  let processedSize := HANDSHAKE_HEADER_SZ + h.fragLength + ev.padSz
  if ev.input.length < HANDSHAKE_HEADER_SZ + h.fragLength then some (st, .incompleteData, 0)
  else if h.messageLength < h.fragOff + h.fragLength then some (st, .bufferError, 0)
  -- a retransmission
  else if h.messageSeq < st.expectedPeerHandshakeNumber then some (st, .ok, processedSize)
  else if ¬(h.fragOff = 0 ∧ h.fragLength = h.messageLength) ∧
      dtls13AcceptFragmented env st ev.encrypted h.type = false then
    if env.dtls13ChFrag = true ∧ env.dtlsStateful st = false ∧ h.fragOff = 0 ∧ h.type = CLIENT_HELLO then
      match env.chFragment st h (excerpt ev.input HANDSHAKE_HEADER_SZ h.fragLength) with
      | .refused => some (st, .ok, processedSize)
      | .stopped => some (st, .fatalError, 0)
      | .verified => takeFragment env st ev h
    else some (st, .ok, processedSize)
  else takeFragment env st ev h

/-- `_Dtls13HandshakeRecv`: the state, the result and the bytes it used. -/
def dtls13HandshakeRecv (env : Env) (st : HsState) (ev : HsRecord) : Option (HsState × HsRet × ℕ) :=
  let st := { st with records := st.records + 1 }
  match getDtlsHandShakeHeader ev.versionOk ev.input with
  | none => some (st, .parseError, 0)
  | some h =>
    if env.sanityCheck st h ev.curEpoch = false then some (st, .sanityError, 0)
    else if env.beforeFirstReply st = true then
      if h.type ≠ CLIENT_HELLO then
        -- other messages are ignored before a ClientHello is verified
        some (st, .ok, ev.input.length)
      else
        -- to operate stateless, the ClientHello is taken to be in order
        recvFragment env { st with expectedPeerHandshakeNumber := h.messageSeq } ev h
    else recvFragment env st ev h

/-- One record. -/
def hsStep (env : Env) (st : HsState) (ev : HsRecord) : Option HsState := (dtls13HandshakeRecv env st ev).map (·.1)

/-! ### Any records -/

/-- What holds of the stored messages whatever comes. -/
structure Bounded (st : HsState) : Prop where
  sane : ∀ msg ∈ st.rxMsgList, Sane msg ∧ msg.sz < 2 ^ 24
  sz : st.rxMsgListSz = st.rxMsgList.length
  few : st.rxMsgList.length ≤ POOL_SZ

section Bounds

variable {env : Env} {st : HsState}

theorem receive_eq_some {heap : Heap} {msg t : DtlsMsg} {f : Frag} {r : SetResult}
    (h : dtlsMsgSet heap msg f = some (t, r)) : receive msg (heap, f) = some t := by
  rw [receive, h]
  rfl

theorem dtlsMsgSet_sane (heap : Heap) {msg : DtlsMsg} (f : Frag) (h : Sane msg ∧ msg.sz < 2 ^ 24) :
    ∃ p, dtlsMsgSet heap msg f = some p ∧ Sane p.1 ∧ p.1.sz < 2 ^ 24 := by
  obtain ⟨t, ht, hsane, hsz⟩ := receive_sane h.1 (heap, f)
  obtain ⟨p, hp, rfl⟩ := Option.map_eq_some_iff.mp ht
  exact ⟨p, hp, hsane, hsz ▸ h.2⟩

theorem setFound_sane (heap : Heap) (f : Frag) : ∀ {l : List DtlsMsg}, (∀ msg ∈ l, Sane msg ∧ msg.sz < 2 ^ 24) →
    ∃ l', setFound heap f l = some l' ∧ l'.length = l.length ∧ ∀ msg ∈ l', Sane msg ∧ msg.sz < 2 ^ 24
  | [], _ => ⟨[], rfl, rfl, by simp⟩
  | msg :: tail, hl => by
    unfold setFound
    split
    · obtain ⟨p, hp, hsane⟩ := dtlsMsgSet_sane heap f (hl msg List.mem_cons_self)
      refine ⟨p.1 :: tail, by rw [hp]; rfl, rfl, ?_⟩
      intro x hx
      rcases List.mem_cons.mp hx with rfl | hx
      · exact hsane
      · exact hl x (List.mem_cons_of_mem _ hx)
    · obtain ⟨l', hl', hlen, hall⟩ := setFound_sane heap f fun x hx => hl x (List.mem_cons_of_mem _ hx)
      refine ⟨msg :: l', by rw [hl']; rfl, by simp [hlen], ?_⟩
      intro x hx
      rcases List.mem_cons.mp hx with rfl | hx
      · exact hl x List.mem_cons_self
      · exact hall x hx

theorem mem_insert {item x : DtlsMsg} : ∀ {l : List DtlsMsg}, x ∈ dtlsMsgInsert item l ↔ x = item ∨ x ∈ l
  | [] => by simp [dtlsMsgInsert]
  | cur :: tail => by
    unfold dtlsMsgInsert
    by_cases h : item.epoch.toNat ≤ cur.epoch.toNat ∧ item.seq < cur.seq
    · rw [if_pos h]
      simp
    · rw [if_neg h, List.mem_cons, mem_insert, List.mem_cons]
      tauto

theorem length_insert (item : DtlsMsg) : ∀ l : List DtlsMsg, (dtlsMsgInsert item l).length = l.length + 1
  | [] => rfl
  | cur :: tail => by
    unfold dtlsMsgInsert
    split
    · rfl
    · rw [List.length_cons, length_insert item tail, List.length_cons]

theorem bounded_store (heap : Heap) (h : Bounded st) (hroom : st.rxMsgListSz < POOL_SZ) {f : Frag}
    (hf : f.totalLen < 2 ^ 24) : ∃ st', dtlsMsgStore heap st f = some st' ∧ Bounded st' := by
  unfold dtlsMsgStore
  split
  · obtain ⟨l, hl, hlen, hall⟩ := setFound_sane heap f h.sane
    exact ⟨{ st with rxMsgList := l }, by rw [hl]; rfl, hall, h.sz.trans hlen.symm, hlen ▸ h.few⟩
  · split
    · obtain ⟨p, hp, hsane⟩ := dtlsMsgSet_sane heap f ⟨(sane_new (by omega) : Sane (dtlsMsgNew f.totalLen)), hf⟩
      rw [hp, Option.map_some]
      refine ⟨_, rfl, ?_⟩
      dsimp only
      split
      · have hlen := length_insert p.1 st.rxMsgList
        have hsz := h.sz
        refine ⟨fun x hx => ?_, ?_, ?_⟩
        · rcases mem_insert.mp hx with rfl | hx
          · exact hsane
          · exact h.sane x hx
        · simp only [hlen, hsz]
        · simp only [hlen]
          omega
      · exact h
    · exact ⟨st, rfl, h⟩

theorem bounded_bufferedLoop : ∀ (l : List DtlsMsg) {st : HsState}, Bounded st → st.rxMsgList = l →
    Bounded (bufferedLoop env l st).1
  | [], _, h, _ => h
  | msg :: rest, st, h, hl => by
    unfold bufferedLoop
    split
    · exact h
    split
    · exact h
    dsimp only
    have hrest : ∀ (n : ℕ) (calls : List Call), Bounded { st with
        expectedPeerHandshakeNumber := n, rxMsgList := rest, rxMsgListSz := st.rxMsgListSz - 1, calls := calls } := by
      intro n calls
      have hsz := h.sz
      have hfew := h.few
      rw [hl, List.length_cons] at hsz hfew
      refine ⟨fun x hx => h.sane x (by simp [hl, hx]), ?_, ?_⟩
      · simp only [hsz, Nat.add_sub_cancel]
      · exact Nat.le_of_succ_le hfew
    split
    · split
      · refine bounded_bufferedLoop rest ?_ ?_
        · unfold dtls13MsgWasProcessed
          split
          · exact hrest _ _
          · exact hrest _ _
        · unfold dtls13MsgWasProcessed
          split
          · rfl
          · rfl
      · unfold dtls13MsgWasProcessed
        split
        · exact hrest _ _
        · exact hrest _ _
    · exact ⟨h.sane, h.sz, h.few⟩

theorem bounded_handOn (h : Bounded st) : Bounded (handOn env st).1 := by
  unfold handOn
  split
  · exact bounded_bufferedLoop _ h rfl
  · exact h

theorem bounded_wasProcessed (h : Bounded st) : Bounded (dtls13MsgWasProcessed env st) := by
  unfold dtls13MsgWasProcessed
  split
  · exact ⟨h.sane, h.sz, h.few⟩
  · exact h

theorem bounded_takeFragment (h : Bounded st) (ev : HsRecord) {hdr : HsHeader} (hlen : hdr.messageLength < 2 ^ 24) :
    ∃ p, takeFragment env st ev hdr = some p ∧ Bounded p.1 := by
  unfold takeFragment
  split
  · split
    · rename_i hroom
      obtain ⟨st', hst', hb⟩ := bounded_store ev.heap h hroom (f := ⟨hdr.messageSeq, ev.curEpoch, hdr.type, hdr.fragOff,
        excerpt ev.input HANDSHAKE_HEADER_SZ hdr.fragLength, hdr.messageLength, ev.encrypted⟩) hlen
      rw [hst']
      exact ⟨_, rfl, bounded_handOn hb⟩
    · exact ⟨_, rfl, h⟩
  · dsimp only
    split
    · exact ⟨_, rfl, bounded_handOn (bounded_wasProcessed ⟨h.sane, h.sz, h.few⟩)⟩
    · exact ⟨_, rfl, h.sane, h.sz, h.few⟩

theorem messageLength_lt {versionOk : Bool} {input : List UInt8} {hdr : HsHeader}
    (h : getDtlsHandShakeHeader versionOk input = some hdr) : hdr.messageLength < 2 ^ 24 := by
  unfold getDtlsHandShakeHeader at h
  split at h
  · exact absurd h (by simp)
  · rename_i hlen
    dsimp only at h
    split at h
    · obtain rfl := Option.some.inj h
      have hlt := ofBigEndian_lt (excerpt input 1 3)
      rw [length_excerpt (by simp only [HANDSHAKE_HEADER_SZ] at hlen; omega)] at hlt
      exact hlt
    · exact absurd h (by simp)

theorem bounded_recvFragment (h : Bounded st) (ev : HsRecord) {hdr : HsHeader} (hlen : hdr.messageLength < 2 ^ 24) :
    ∃ p, recvFragment env st ev hdr = some p ∧ Bounded p.1 := by
  unfold recvFragment
  dsimp only
  split
  · exact ⟨_, rfl, h⟩
  split
  · exact ⟨_, rfl, h⟩
  split
  · exact ⟨_, rfl, h⟩
  split
  · split
    · split
      · exact ⟨_, rfl, h⟩
      · exact ⟨_, rfl, h⟩
      · exact bounded_takeFragment h ev hlen
    · exact ⟨_, rfl, h⟩
  · exact bounded_takeFragment h ev hlen

theorem bounded_recv (env : Env) (h : Bounded st) (ev : HsRecord) :
    ∃ st', hsStep env st ev = some st' ∧ Bounded st' := by
  suffices hrecv : ∃ p, dtls13HandshakeRecv env st ev = some p ∧ Bounded p.1 by
    obtain ⟨p, hrun, hb⟩ := hrecv
    exact ⟨p.1, by rw [hsStep, hrun]; rfl, hb⟩
  have hrec : Bounded { st with records := st.records + 1 } := ⟨h.sane, h.sz, h.few⟩
  unfold dtls13HandshakeRecv
  dsimp only
  split
  · exact ⟨_, rfl, hrec⟩
  · rename_i hdr hhdr
    have hlen := messageLength_lt hhdr
    split
    · exact ⟨_, rfl, hrec⟩
    split
    · split
      · exact ⟨_, rfl, hrec⟩
      · refine bounded_recvFragment ?_ ev hlen
        exact ⟨h.sane, h.sz, h.few⟩
    · exact bounded_recvFragment hrec ev hlen

theorem run_bounded (env : Env) (n₀ : ℕ) (evs : List HsRecord) :
    ∃ st, run (hsStep env) { expectedPeerHandshakeNumber := n₀ } evs = some st ∧ Bounded st :=
  run_exists_of_meets (hsStep env) (Q := fun _ => True) (fun _ ev h _ _ => bounded_recv env h ev) evs
    ⟨by simp, rfl, by simp⟩ (fun _ _ => trivial) (meets_true (hsStep env) _ _)

end Bounds

/-- **No copy leaves its buffer, whatever the records are.** In every run over any
records there are at most `DTLS_POOL_SZ` stored messages; the fragments of each
lie apart and inside it, in at most `DTLS_FRAG_POOL_SZ` buckets whose bytes are
counted right, and a complete one has its own length. -/
theorem records_stay_in_bounds (env : Env) (n₀ : ℕ) (evs : List HsRecord) :
    ∃ st, run (hsStep env) { expectedPeerHandshakeNumber := n₀ } evs = some st ∧
      (st.rxMsgListSz = st.rxMsgList.length ∧ st.rxMsgList.length ≤ POOL_SZ) ∧
      ∀ msg ∈ st.rxMsgList, msg.sz < 2 ^ 24 ∧
        (msg.ready = false → Shaped msg.sz msg.fragBucketList ∧ msg.fragBucketList.length ≤ FRAG_POOL_SZ ∧
          (msg.fragBucketList ≠ [] →
            msg.bytesReceived = sizes msg.fragBucketList ∧ msg.bytesReceived < msg.sz)) ∧
        (msg.ready = true → msg.raw.length = 12 + msg.sz) := by
  obtain ⟨st, hrun, hb⟩ := run_bounded env n₀ evs
  refine ⟨st, hrun, ⟨hb.sz, hb.few⟩, ?_⟩
  intro msg hmsg
  obtain ⟨hsane, hsz⟩ := hb.sane msg hmsg
  refine ⟨hsz, fun hready => ?_, hsane.full⟩
  have hopen := hsane.isOpen hready
  refine ⟨hopen.shaped, hopen.count ▸ hsane.few, fun hne => ?_⟩
  have hle := sizes_le_sz hopen.shaped
  have hshort := hopen.short hne
  have hpos := List.length_pos_iff.mpr hne
  rw [hopen.received hne]
  exact ⟨rfl, by omega⟩

/-! ### The peer -/

/-- A message of the peer; its number is its place in the list of them. -/
structure HsMsg where
  type : UInt8
  epoch : BitVec 16
  encrypted : Bool
  body : List UInt8

/-- The header of its bytes `o` to `o + k`, when it has the number `n`. -/
def HsMsg.header (m : HsMsg) (n o k : ℕ) : HsHeader := ⟨m.type, m.body.length, n, o, k⟩

/-- What the numbers of the format can hold. -/
structure PeerOk (msgs : List HsMsg) : Prop where
  few : msgs.length < 2 ^ 16
  small : ∀ m ∈ msgs, m.body.length < 2 ^ 24

/-- A record with the bytes `o` to `o + k` of the message `m`, the `n`th. What
else is in the record does not matter. -/
structure Carries (m : HsMsg) (n o k : ℕ) (ev : HsRecord) : Prop where
  le : o + k ≤ m.body.length
  epoch : ev.curEpoch = m.epoch
  encrypted : ev.encrypted = m.encrypted
  input : ∃ rest, ev.input = dtls13HandshakeAddHeaderFrag (m.header n o k) ++ excerpt m.body o k ++ rest

/-- A record of the peer. -/
def FromPeer (msgs : List HsMsg) (ev : HsRecord) : Prop := ∃ n m o k, msgs[n]? = some m ∧ Carries m n o k ev

theorem length_addHeaderFrag (h : HsHeader) : (dtls13HandshakeAddHeaderFrag h).length = HANDSHAKE_HEADER_SZ := by
  simp [dtls13HandshakeAddHeaderFrag, length_bigEndian, HANDSHAKE_HEADER_SZ]

/-- A header is read as it was written, if its version is accepted. -/
theorem getHeader_addHeader (versionOk : Bool) {h : HsHeader} (hl : h.messageLength < 2 ^ 24)
    (hs : h.messageSeq < 2 ^ 16) (ho : h.fragOff < 2 ^ 24) (hf : h.fragLength < 2 ^ 24) (rest : List UInt8) :
    getDtlsHandShakeHeader versionOk (dtls13HandshakeAddHeaderFrag h ++ rest) =
      if versionOk ∨ h.type = CLIENT_HELLO ∨ h.type = HELLO_VERIFY_REQUEST ∨ h.type = SERVER_HELLO then some h
      else none := by
  have hlen : ¬(dtls13HandshakeAddHeaderFrag h ++ rest).length < HANDSHAKE_HEADER_SZ := by
    rw [List.length_append, length_addHeaderFrag]
    omega
  have field : ∀ a b c : List UInt8, excerpt (a ++ b ++ c) a.length b.length = b := by
    intro a b c
    rw [excerpt, List.append_assoc, List.drop_left, List.take_left]
  have hlen1 : excerpt (dtls13HandshakeAddHeaderFrag h ++ rest) 1 3 = bigEndian 3 h.messageLength := by
    have := field [h.type] (bigEndian 3 h.messageLength)
      (bigEndian 2 h.messageSeq ++ bigEndian 3 h.fragOff ++ bigEndian 3 h.fragLength ++ rest)
    simpa [dtls13HandshakeAddHeaderFrag] using this
  have hlen2 : excerpt (dtls13HandshakeAddHeaderFrag h ++ rest) 4 2 = bigEndian 2 h.messageSeq := by
    have := field (h.type :: bigEndian 3 h.messageLength) (bigEndian 2 h.messageSeq)
      (bigEndian 3 h.fragOff ++ bigEndian 3 h.fragLength ++ rest)
    simpa [dtls13HandshakeAddHeaderFrag] using this
  have hlen3 : excerpt (dtls13HandshakeAddHeaderFrag h ++ rest) 6 3 = bigEndian 3 h.fragOff := by
    have := field (h.type :: (bigEndian 3 h.messageLength ++ bigEndian 2 h.messageSeq)) (bigEndian 3 h.fragOff)
      (bigEndian 3 h.fragLength ++ rest)
    simpa [dtls13HandshakeAddHeaderFrag] using this
  have hlen4 : excerpt (dtls13HandshakeAddHeaderFrag h ++ rest) 9 3 = bigEndian 3 h.fragLength := by
    have := field (h.type :: (bigEndian 3 h.messageLength ++ bigEndian 2 h.messageSeq ++ bigEndian 3 h.fragOff))
      (bigEndian 3 h.fragLength) rest
    simpa [dtls13HandshakeAddHeaderFrag] using this
  unfold getDtlsHandShakeHeader
  rw [if_neg hlen, hlen1, hlen2, hlen3, hlen4, ofBigEndian_bigEndian_of_lt hl, ofBigEndian_bigEndian_of_lt hs,
    ofBigEndian_bigEndian_of_lt ho, ofBigEndian_bigEndian_of_lt hf]
  rfl

section Peer

variable {msgs : List HsMsg} {m : HsMsg} {n o k : ℕ} {ev : HsRecord}

/-- What is read of a record of the peer. -/
theorem getHeader_of_carries (hp : PeerOk msgs) (hm : msgs[n]? = some m) (h : Carries m n o k ev) (versionOk : Bool) :
    getDtlsHandShakeHeader versionOk ev.input =
      if versionOk ∨ m.type = CLIENT_HELLO ∨ m.type = HELLO_VERIFY_REQUEST ∨ m.type = SERVER_HELLO then
        some (m.header n o k)
      else none := by
  obtain ⟨rest, hin⟩ := h.input
  have hsmall := hp.small m (List.mem_of_getElem? hm)
  have hn : n < msgs.length := (List.getElem?_eq_some_iff.mp hm).1
  have hle := h.le
  have hfew := hp.few
  have heq := getHeader_addHeader versionOk (h := m.header n o k) (by simpa [HsMsg.header] using hsmall)
    (by simp only [HsMsg.header]; omega) (by simp only [HsMsg.header]; omega) (by simp only [HsMsg.header]; omega)
    (excerpt m.body o k ++ rest)
  rwa [← List.append_assoc, ← hin] at heq

theorem header_of_carries (hp : PeerOk msgs) (hm : msgs[n]? = some m) (h : Carries m n o k ev) :
    getDtlsHandShakeHeader ev.versionOk ev.input = none ∨
      getDtlsHandShakeHeader ev.versionOk ev.input = some (m.header n o k) := by
  rw [getHeader_of_carries hp hm h]
  by_cases hv : ev.versionOk ∨ m.type = CLIENT_HELLO ∨ m.type = HELLO_VERIFY_REQUEST ∨ m.type = SERVER_HELLO
  · exact Or.inr (if_pos hv)
  · exact Or.inl (if_neg hv)

/-- The bytes behind the header. -/
theorem data_of_carries (h : Carries m n o k ev) : excerpt ev.input HANDSHAKE_HEADER_SZ k = excerpt m.body o k := by
  obtain ⟨rest, hin⟩ := h.input
  have hlen : (excerpt m.body o k).length = k := length_excerpt h.le
  rw [hin, excerpt, ← length_addHeaderFrag (m.header n o k), List.append_assoc, List.drop_left]
  exact List.take_left' hlen

/-- The fragment that `DtlsMsgStore` is given. -/
theorem frag_of_carries (h : Carries m n o k ev) :
    (⟨n, ev.curEpoch, m.type, o, excerpt ev.input HANDSHAKE_HEADER_SZ k, m.body.length, ev.encrypted⟩ : Frag).Of
      ⟨n, m.epoch, m.type⟩ m.body :=
  ⟨rfl, h.epoch, rfl, rfl, by rw [data_of_carries h]; exact part_excerpt h.le⟩

end Peer

/-! ### What is handed on -/

/-- How many of the messages handed on were taken. -/
def takenCount (calls : List Call) : ℕ := calls.countP (·.taken)

/-- Each message handed on is the one that is due: the first not taken before. -/
def Ordered (msgs : List HsMsg) (n₀ : ℕ) (calls : List Call) : Prop :=
  ∀ i c, calls[i]? = some c →
    ∃ m, msgs[n₀ + takenCount (calls.take i)]? = some m ∧ c.type = m.type ∧ c.body = m.body

/-- A stored message is one of the peer's, and what it holds is right. -/
def Holds (msgs : List HsMsg) (msg : DtlsMsg) : Prop :=
  ∃ m, msgs[msg.seq]? = some m ∧ (msg.type = m.type ∧ msg.epoch = m.epoch) ∧
    Expects ⟨msg.seq, m.epoch, m.type⟩ m.body msg ∧ Tracks ⟨msg.seq, m.epoch, m.type⟩ m.body msg

/-- What holds in every run. -/
structure HsInv (msgs : List HsMsg) (n₀ : ℕ) (st : HsState) : Prop where
  due : st.expectedPeerHandshakeNumber = n₀ + takenCount st.calls
  le : st.expectedPeerHandshakeNumber ≤ msgs.length
  list : ∀ msg ∈ st.rxMsgList, Holds msgs msg
  calls : Ordered msgs n₀ st.calls

section Handling

variable {msgs : List HsMsg} {n₀ : ℕ} {st : HsState} {env : Env}

theorem HsInv.record (h : HsInv msgs n₀ st) : HsInv msgs n₀ { st with records := st.records + 1 } :=
  ⟨h.due, h.le, h.list, h.calls⟩

theorem ordered_append {calls : List Call} {c : Call} {m : HsMsg} (h : Ordered msgs n₀ calls)
    (hm : msgs[n₀ + takenCount calls]? = some m) (ht : c.type = m.type) (hb : c.body = m.body) :
    Ordered msgs n₀ (calls ++ [c]) := by
  intro i d hd
  rcases Nat.lt_trichotomy i calls.length with hi | hi | hi
  · rw [List.getElem?_append_left hi] at hd
    rw [List.take_append_of_le_length hi.le]
    exact h i d hd
  · subst hi
    rw [List.getElem?_append_right le_rfl, Nat.sub_self] at hd
    obtain rfl := Option.some.inj hd
    exact ⟨m, by rw [List.take_left]; exact hm, ht, hb⟩
  · rw [List.getElem?_append_right hi.le, List.getElem?_eq_none (by simp; omega)] at hd
    exact absurd hd (by simp)

theorem takenCount_append (calls : List Call) (c : Call) :
    takenCount (calls ++ [c]) = takenCount calls + if c.taken then 1 else 0 := by
  simp [takenCount, List.countP_append, List.countP_cons]

/-- A call for the message that is due, and the number after it. -/
theorem inv_call (env : Env) (hp : PeerOk msgs) (h : HsInv msgs n₀ st) (hst : ∀ st, env.dtlsStateful st = true)
    {m : HsMsg} (hm : msgs[st.expectedPeerHandshakeNumber]? = some m) {c : Call} (ht : c.type = m.type)
    (hb : c.body = m.body)
    {l : List DtlsMsg} (hl : ∀ msg ∈ l, Holds msgs msg) (sz : ℕ) :
    let st' : HsState := { st with calls := st.calls ++ [c], rxMsgList := l, rxMsgListSz := sz }
    HsInv msgs n₀ (if c.taken then dtls13MsgWasProcessed env st' else st') := by
  intro st'
  have hlt : st.expectedPeerHandshakeNumber < msgs.length := (List.getElem?_eq_some_iff.mp hm).1
  have hord : Ordered msgs n₀ (st.calls ++ [c]) := ordered_append h.calls (h.due ▸ hm) ht hb
  have hdue := h.due
  have hcount := takenCount_append st.calls c
  have hfew := hp.few
  cases htk : c.taken with
  | false =>
    rw [htk, if_neg Bool.false_ne_true] at hcount
    rw [if_neg Bool.false_ne_true]
    refine ⟨?_, h.le, hl, hord⟩
    simp only [st']
    omega
  | true =>
    rw [htk, if_pos rfl] at hcount
    rw [if_pos rfl, dtls13MsgWasProcessed, if_pos (hst _)]
    have hmod : (st.expectedPeerHandshakeNumber + 1) % 2 ^ 16 = st.expectedPeerHandshakeNumber + 1 :=
      Nat.mod_eq_of_lt (by omega)
    refine ⟨?_, ?_, hl, hord⟩
    · simp only [st', hmod]
      omega
    · simp only [st', hmod]
      omega

/-- The body of a stored message that is complete. -/
theorem body_of_holds {msg : DtlsMsg} {m : HsMsg} (h : Holds msgs msg) (hm : msgs[msg.seq]? = some m)
    (hr : msg.ready = true) : msg.raw.drop HANDSHAKE_HEADER_SZ = m.body ∧ msg.type = m.type := by
  obtain ⟨m', hm', ⟨ht, _⟩, _, htr⟩ := h
  obtain rfl : m' = m := Option.some.inj (hm'.symm.trans hm)
  refine ⟨?_, ht⟩
  rw [htr.raw hr, show HANDSHAKE_HEADER_SZ = (handshakeHeader m'.type msg.seq m'.body.length).length from
    (length_handshakeHeader _ _ _).symm, List.drop_left]

/-- The stored messages that are due are handed on in order. -/
theorem inv_bufferedLoop (hp : PeerOk msgs) (hst : ∀ st, env.dtlsStateful st = true) :
    ∀ (l : List DtlsMsg) {st : HsState}, HsInv msgs n₀ st → st.rxMsgList = l →
      HsInv msgs n₀ (bufferedLoop env l st).1
  | [], st, h, _ => h
  | msg :: rest, st, h, hl => by
    unfold bufferedLoop
    by_cases hskip : st.expectedPeerHandshakeNumber ≠ msg.seq ∨ msg.ready = false
    · rw [if_pos hskip]
      exact h
    · rw [if_neg hskip]
      by_cases henc : msgCheckEncryption msg.type msg.encrypted = false
      · rw [if_pos henc]
        exact h
      · rw [if_neg henc]
        dsimp only
        rw [not_or, not_not, Bool.not_eq_false] at hskip
        obtain ⟨hdue, hready⟩ := hskip
        have hholds := h.list msg (by simp [hl])
        obtain ⟨m, hm, -⟩ := id hholds
        obtain ⟨hbody, htype⟩ := body_of_holds hholds hm hready
        have hrest : ∀ x ∈ rest, Holds msgs x := fun x hx => h.list x (by simp [hl, hx])
        generalize (env.doTls13HandShakeMsgType st msg.type (msg.raw.drop HANDSHAKE_HEADER_SZ)).1 = r
        generalize htk : decide (r = HsResult.ok ∨ r = HsResult.wantWrite ∨
          (msg.type = CERTIFICATE_REQUEST ∧ env.handShakeDone st = true ∧ r = HsResult.pending)) = taken
        cases taken with
        | false =>
          rw [if_neg Bool.false_ne_true]
          have := inv_call env hp h hst (hdue ▸ hm) (c := ⟨msg.type, _, r, false⟩) htype hbody h.list
            st.rxMsgListSz
          exact this
        | true =>
          rw [if_pos rfl]
          have hinv := inv_call env hp h hst (hdue ▸ hm) (c := ⟨msg.type, _, r, true⟩) htype hbody hrest
            (st.rxMsgListSz - 1)
          dsimp only at hinv
          rw [if_pos rfl] at hinv
          by_cases hr : r = HsResult.ok
          · rw [if_pos hr]
            refine inv_bufferedLoop hp hst rest hinv ?_
            simp [dtls13MsgWasProcessed, hst]
          · rw [if_neg hr]
            exact hinv

theorem inv_handOn (hp : PeerOk msgs) (hst : ∀ st, env.dtlsStateful st = true) (h : HsInv msgs n₀ st) :
    HsInv msgs n₀ (handOn env st).1 := by
  unfold handOn
  by_cases hn : dtls13NextMessageComplete st = true
  · rw [if_pos hn]
    exact inv_bufferedLoop hp hst _ h rfl
  · rw [if_neg hn]
    exact h

/-- `DtlsMsgSet` of a stored message of the peer. -/
theorem holds_receive {msg t : DtlsMsg} {heap : Heap} {f : Frag} {m : HsMsg} (h : Holds msgs msg)
    (hm : msgs[msg.seq]? = some m) (hf : f.Of ⟨msg.seq, m.epoch, m.type⟩ m.body)
    (hs : ¬Stray msg.fragBucketList f.fragOffset f.stop) (ht : receive msg (heap, f) = some t) :
    Holds msgs t ∧ t.seq = msg.seq := by
  obtain ⟨m', hm', ⟨hty, hep⟩, hx, htr⟩ := h
  obtain rfl : m' = m := Option.some.inj (hm'.symm.trans hm)
  obtain ⟨u, hu, hx', htr', -⟩ := receive_of heap hx hf
  obtain rfl : u = t := Option.some.inj (hu.symm.trans ht)
  have hid : u.type = m'.type ∧ u.epoch = m'.epoch ∧ u.seq = msg.seq := by
    cases hr : msg.ready with
    | true =>
      rw [receive_same (Or.inl hr) ht]
      exact ⟨hty, hep, rfl⟩
    | false =>
      obtain ⟨h₁, h₂, h₃⟩ := (receive_populates hx.sane hr (accepts_of hx hf) ht).1
      exact ⟨h₁.trans hf.type, h₂.trans hf.epoch, h₃.trans hf.seq⟩
  obtain ⟨h₁, h₂, h₃⟩ := hid
  refine ⟨⟨m', by rw [h₃]; exact hm, ⟨h₁, h₂⟩, ?_, ?_⟩, h₃⟩
  · rw [h₃]
    exact hx'
  · rw [h₃]
    exact htr' hs htr

/-- A message that the fragment is not stray for. -/
def FitsIn (l : List DtlsMsg) (f : Frag) : Prop :=
  ∀ msg ∈ l, msg.seq = f.seq → ¬Stray msg.fragBucketList f.fragOffset f.stop

theorem isMsg_iff {epoch : BitVec 16} {seq : ℕ} {msg : DtlsMsg} :
    isMsg epoch seq msg = true ↔ msg.epoch = epoch ∧ msg.seq = seq := by simp [isMsg]

/-- Setting the message that is found leaves messages of the peer. -/
theorem holds_setFound (heap : Heap) {f : Frag} {m : HsMsg} (hm : msgs[f.seq]? = some m)
    (hf : f.Of ⟨f.seq, m.epoch, m.type⟩ m.body) : ∀ {l : List DtlsMsg}, (∀ msg ∈ l, Holds msgs msg) → FitsIn l f →
    ∃ l', setFound heap f l = some l' ∧ ∀ msg ∈ l', Holds msgs msg
  | [], _, _ => ⟨[], rfl, by simp⟩
  | msg :: tail, hl, hs => by
    have hmsg := hl msg List.mem_cons_self
    have htail : ∀ x ∈ tail, Holds msgs x := fun x hx => hl x (List.mem_cons_of_mem _ hx)
    unfold setFound
    by_cases hfound : isMsg f.epoch f.seq msg = true
    · rw [if_pos hfound]
      obtain ⟨_, hseq⟩ := isMsg_iff.mp hfound
      obtain ⟨m', _, _, hx, _⟩ := id hmsg
      obtain ⟨t, ht, _⟩ := receive_sane hx.sane (heap, f)
      obtain ⟨p, hp, rfl⟩ := Option.map_eq_some_iff.mp ht
      refine ⟨p.1 :: tail, by rw [hp]; rfl, ?_⟩
      intro x hx'
      rcases List.mem_cons.mp hx' with rfl | hx'
      · refine (holds_receive hmsg (by rw [hseq]; exact hm) ?_ (hs msg List.mem_cons_self hseq) ht).1
        rw [hseq]
        exact hf
      · exact htail x hx'
    · rw [if_neg hfound]
      obtain ⟨l', hl', hall⟩ := holds_setFound heap hm hf htail fun x hx => hs x (List.mem_cons_of_mem _ hx)
      refine ⟨msg :: l', by rw [hl']; rfl, ?_⟩
      intro x hx
      rcases List.mem_cons.mp hx with rfl | hx
      · exact hmsg
      · exact hall x hx

/-- The first fragment of a message. -/
theorem holds_new (heap : Heap) {f : Frag} {m : HsMsg} (hsmall : m.body.length < 2 ^ 24) (hm : msgs[f.seq]? = some m)
    (hf : f.Of ⟨f.seq, m.epoch, m.type⟩ m.body) : ∃ t r, dtlsMsgSet heap (dtlsMsgNew f.totalLen) f = some (t, r) ∧
      Holds msgs t ∧ t.seq = f.seq := by
  have hx := expects_new ⟨f.seq, m.epoch, m.type⟩ hsmall
  rw [← hf.totalLen] at hx
  obtain ⟨t, ht, hx', htr, -⟩ := receive_of heap hx hf
  obtain ⟨p, hset, rfl⟩ := Option.map_eq_some_iff.mp ht
  refine ⟨p.1, p.2, hset, ?_⟩
  have htr' := htr (by simp [dtlsMsgNew, Stray, InGap, CutsFront]) (by rw [hf.totalLen]; exact tracks_new _)
  have hseq := (receive_populates hx.sane rfl (accepts_of hx hf) ht).1
  rw [hf.type, hf.epoch] at hseq
  obtain ⟨h₁, h₂, h₃⟩ := hseq
  refine ⟨⟨m, by rw [h₃]; exact hm, ⟨h₁, h₂⟩, ?_, ?_⟩, h₃⟩
  · rw [h₃]
    exact hx'
  · rw [h₃]
    exact htr'

/-- `DtlsMsgStore` of a fragment of the peer. -/
theorem inv_store (heap : Heap) {f : Frag} {m : HsMsg} (hp : PeerOk msgs) (h : HsInv msgs n₀ st)
    (hm : msgs[f.seq]? = some m) (hf : f.Of ⟨f.seq, m.epoch, m.type⟩ m.body) (hs : FitsIn st.rxMsgList f) :
    ∃ st', dtlsMsgStore heap st f = some st' ∧ HsInv msgs n₀ st' := by
  unfold dtlsMsgStore
  by_cases hany : st.rxMsgList.any (isMsg f.epoch f.seq) = true
  · rw [if_pos hany]
    obtain ⟨l, hl, hall⟩ := holds_setFound heap hm hf h.list hs
    exact ⟨{ st with rxMsgList := l }, by rw [hl]; rfl, h.due, h.le, hall, h.calls⟩
  · rw [if_neg hany]
    cases heap.ok with
    | false => exact ⟨st, rfl, h⟩
    | true =>
      rw [if_pos rfl]
      obtain ⟨t, r, ht, hholds, _⟩ := holds_new heap (hp.small m (List.mem_of_getElem? hm)) hm hf
      rw [ht, Option.map_some]
      dsimp only
      by_cases hr : r = .ok
      · rw [if_pos hr]
        refine ⟨_, rfl, h.due, h.le, ?_, h.calls⟩
        intro x hx
        rcases mem_insert.mp hx with rfl | hx
        · exact hholds
        · exact h.list x hx
      · rw [if_neg hr]
        exact ⟨st, rfl, h⟩

/-! ### A record -/

/-- The fragment is not stray for the message it is stored to. -/
def Clean (st : HsState) (ev : HsRecord) : Prop :=
  ∀ h ∈ getDtlsHandShakeHeader ev.versionOk ev.input, ∀ msg ∈ st.rxMsgList, msg.seq = h.messageSeq →
    ¬Stray msg.fragBucketList h.fragOff (h.fragOff + h.fragLength)

instance (st : HsState) (ev : HsRecord) : Decidable (Clean st ev) :=
  inferInstanceAs (Decidable (∀ h ∈ getDtlsHandShakeHeader ev.versionOk ev.input, _))

variable {m : HsMsg} {n o k : ℕ} {ev : HsRecord}

/-- A fragment that is not refused is handed on, or stored. -/
theorem inv_takeFragment (hp : PeerOk msgs) (hst : ∀ st, env.dtlsStateful st = true) (h : HsInv msgs n₀ st)
    (hm : msgs[n]? = some m) (hc : Carries m n o k ev) (hge : st.expectedPeerHandshakeNumber ≤ n)
    (hs : ∀ msg ∈ st.rxMsgList, msg.seq = n → ¬Stray msg.fragBucketList o (o + k)) :
    ∃ p, takeFragment env st ev (m.header n o k) = some p ∧ HsInv msgs n₀ p.1 := by
  unfold takeFragment
  split
  · by_cases hpool : st.rxMsgListSz < POOL_SZ
    · rw [if_pos hpool]
      have hlen : (excerpt ev.input HANDSHAKE_HEADER_SZ k).length = k := by
        rw [data_of_carries hc]
        exact length_excerpt hc.le
      obtain ⟨st', hst', hinv⟩ := inv_store ev.heap hp h hm (frag_of_carries hc) (fun msg hmsg hseq => by
        simp only [Frag.stop, hlen]
        exact hs msg hmsg hseq)
      simp only [HsMsg.header]
      rw [hst']
      exact ⟨_, rfl, inv_handOn hp hst hinv⟩
    · rw [if_neg hpool]
      exact ⟨_, rfl, h⟩
  · -- the whole message, and it is due
    rename_i hdirect
    simp only [HsMsg.header, not_or, not_not] at hdirect
    obtain ⟨⟨rfl, rfl⟩, hle, -⟩ := hdirect
    obtain rfl : st.expectedPeerHandshakeNumber = n := by omega
    have hbody : excerpt ev.input HANDSHAKE_HEADER_SZ
        (m.header st.expectedPeerHandshakeNumber 0 m.body.length).messageLength =
        m.body := by
      rw [HsMsg.header, data_of_carries hc, excerpt_all]
    have htype : (m.header st.expectedPeerHandshakeNumber 0 m.body.length).type = m.type := rfl
    dsimp only
    rw [hbody, htype]
    generalize env.doTls13HandShakeMsgType st m.type m.body = p
    have hinv := inv_call env hp h hst hm (c := ⟨m.type, m.body, p.1, decide (p.1 = .ok)⟩) rfl rfl h.list
      st.rxMsgListSz
    dsimp only at hinv
    by_cases hr : p.1 = .ok
    · rw [if_pos (decide_eq_true hr)] at hinv
      rw [if_pos hr]
      exact ⟨_, rfl, inv_handOn hp hst hinv⟩
    · rw [if_neg (by simpa using hr)] at hinv
      rw [if_neg hr]
      exact ⟨_, rfl, hinv⟩

theorem inv_recvFragment (hp : PeerOk msgs) (hst : ∀ st, env.dtlsStateful st = true) (h : HsInv msgs n₀ st)
    (hm : msgs[n]? = some m) (hc : Carries m n o k ev)
    (hs : ∀ msg ∈ st.rxMsgList, msg.seq = n → ¬Stray msg.fragBucketList o (o + k)) :
    ∃ p, recvFragment env st ev (m.header n o k) = some p ∧ HsInv msgs n₀ p.1 := by
  unfold recvFragment
  dsimp only
  split
  · exact ⟨_, rfl, h⟩
  split
  · exact ⟨_, rfl, h⟩
  split
  · exact ⟨_, rfl, h⟩
  rename_i hold
  have htake := inv_takeFragment hp hst h hm hc (by simpa [HsMsg.header] using hold) hs
  split
  · rw [if_neg (by simp [hst])]
    exact ⟨_, rfl, h⟩
  · exact htake

/-- One record of the peer. -/
theorem inv_recv (hp : PeerOk msgs) (hst : ∀ st, env.dtlsStateful st = true)
    (hreply : ∀ st, env.beforeFirstReply st = false) (h : HsInv msgs n₀ st) (hev : FromPeer msgs ev)
    (hs : Clean st ev) : ∃ st', hsStep env st ev = some st' ∧ HsInv msgs n₀ st' := by
  obtain ⟨n, m, o, k, hm, hc⟩ := hev
  suffices hrecv : ∃ p, dtls13HandshakeRecv env st ev = some p ∧ HsInv msgs n₀ p.1 by
    obtain ⟨p, hrun, hinv⟩ := hrecv
    exact ⟨p.1, by rw [hsStep, hrun]; rfl, hinv⟩
  have hrec := h.record
  unfold dtls13HandshakeRecv
  rcases header_of_carries hp hm hc with hnone | hsome
  · rw [hnone]
    exact ⟨_, rfl, hrec⟩
  · rw [hsome]
    dsimp only
    split
    · exact ⟨_, rfl, hrec⟩
    · rw [hreply, if_neg Bool.false_ne_true]
      exact inv_recvFragment hp hst hrec hm hc (hs _ hsome)

end Handling

/-- **What is handed on is the peer's messages, whole and in order.** In every run
without stray fragments, whatever is lost, repeated or reordered and whatever the
library makes of a message, each message handed on is the first that was not
taken before, with the bytes the peer sent. -/
theorem handled_in_order (msgs : List HsMsg) (hp : PeerOk msgs) (env : Env) (hst : ∀ st, env.dtlsStateful st = true)
    (hreply : ∀ st, env.beforeFirstReply st = false) (n₀ : ℕ) (hn : n₀ ≤ msgs.length) (evs : List HsRecord)
    (hev : ∀ ev ∈ evs, FromPeer msgs ev)
    (hclean : Meets (hsStep env) Clean { expectedPeerHandshakeNumber := n₀ } evs) :
    ∃ st, run (hsStep env) { expectedPeerHandshakeNumber := n₀ } evs = some st ∧
      Ordered msgs n₀ st.calls ∧ st.expectedPeerHandshakeNumber = n₀ + takenCount st.calls := by
  have hinit : HsInv msgs n₀ { expectedPeerHandshakeNumber := n₀ } :=
    ⟨rfl, hn, by simp, by simp [Ordered]⟩
  obtain ⟨st, hrun, hinv⟩ := run_exists_of_meets (hsStep env) (I := HsInv msgs n₀) (Q := FromPeer msgs)
    (fun st ev h hq hok => inv_recv hp hst hreply h hq hok) evs hinit hev hclean
  exact ⟨st, hrun, hinv.calls, hinv.due⟩

/-- A client that takes whatever it is given. -/
def Env.agreeing : Env where
  side := .clientEnd
  doTls13HandShakeMsgType _ _ body := (.ok, HANDSHAKE_HEADER_SZ + body.length)
  sanityCheck _ _ _ := true
  dtls13ChFrag := false
  chFragment _ _ _ := .refused
  beforeFirstReply _ := false
  dtlsStateful _ := true
  handShakeDone _ := false
  usingAsyncCrypto := false

/-- The record with the bytes `o` to `o + k` of message `n` and no more. -/
def recordOf (m : HsMsg) (n o k : ℕ) : HsRecord :=
  ⟨Heap.zeros, m.epoch, m.encrypted, true, 0, dtls13HandshakeAddHeaderFrag (m.header n o k) ++ excerpt m.body o k⟩

theorem carries_recordOf {m : HsMsg} {n o k : ℕ} (h : o + k ≤ m.body.length) : Carries m n o k (recordOf m n o k) :=
  ⟨h, rfl, rfl, [], by simp [recordOf]⟩

/-- A ServerHello and two messages of the handshake epoch. -/
def serverFlight : List HsMsg :=
  [⟨SERVER_HELLO, 0, false, [1, 2]⟩, ⟨ENCRYPTED_EXTENSIONS, 2, true, [5]⟩, ⟨CERTIFICATE, 2, true, [7, 8, 9]⟩]

/-- Behind the ServerHello, the certificate comes before the message it follows. -/
def certificateFirst : List HsRecord :=
  [recordOf ⟨SERVER_HELLO, 0, false, [1, 2]⟩ 0 0 2, recordOf ⟨CERTIFICATE, 2, true, [7, 8, 9]⟩ 2 0 3,
    recordOf ⟨ENCRYPTED_EXTENSIONS, 2, true, [5]⟩ 1 0 1]

theorem handled_in_order_reordered :
    ∃ st, run (hsStep Env.agreeing) { expectedPeerHandshakeNumber := 0 } certificateFirst = some st ∧
      st.calls.map (·.body) = [[1, 2], [5], [7, 8, 9]] ∧ Ordered serverFlight 0 st.calls ∧
      st.expectedPeerHandshakeNumber = 0 + takenCount st.calls := by
  have hev : ∀ ev ∈ certificateFirst, FromPeer serverFlight ev := by
    intro ev hev
    simp only [certificateFirst, List.mem_cons, List.not_mem_nil, or_false] at hev
    rcases hev with rfl | rfl | rfl
    · exact ⟨0, _, 0, 2, rfl, carries_recordOf (by decide)⟩
    · exact ⟨2, _, 0, 3, rfl, carries_recordOf (by decide)⟩
    · exact ⟨1, _, 0, 1, rfl, carries_recordOf (by decide)⟩
  obtain ⟨st, hrun, hordered⟩ := handled_in_order serverFlight ⟨by decide, by decide⟩ Env.agreeing (fun _ => rfl)
    (fun _ => rfl) 0 (by decide) certificateFirst hev (by decide)
  have hbodies : st.calls.map (·.body) = [[1, 2], [5], [7, 8, 9]] := by
    rw [← Option.some.inj hrun]
    decide
  exact ⟨st, hrun, hbodies, hordered⟩

end Reassembly
end PqcDtls
