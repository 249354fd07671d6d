/-
# When a handshake message is handed on

With memory and room for what comes, and a library that takes each of the peer's
messages at its turn, a message is handed on when it and all before it have come,
in whatever order their fragments came: `handled_iff_came`. It takes a peer that
sends each message always whole or always in fragments: a message that comes whole
while part of it is stored is handed on past the stored part, which stays at the
head of the list, and nothing behind it is ever handed on from there
(`blocked_after_refragmentation`).
-/
import PqcDtls.HandshakeRecv

namespace PqcDtls
namespace Reassembly

open Lib

/-! ### What came -/

/-- A record of message `n` came. -/
def Came (msgs : List HsMsg) (evs : List HsRecord) (n : ℕ) : Prop :=
  ∃ m, msgs[n]? = some m ∧ ∃ ev ∈ evs, ∃ o k, Carries m n o k ev

/-- Byte `i` of message `n` came. -/
def CameByte (msgs : List HsMsg) (evs : List HsRecord) (n i : ℕ) : Prop :=
  ∃ m, msgs[n]? = some m ∧ ∃ ev ∈ evs, ∃ o k, Carries m n o k ev ∧ o ≤ i ∧ i < o + k

/-- All of message `n` came. -/
def CameAll (msgs : List HsMsg) (evs : List HsRecord) (n : ℕ) : Prop :=
  Came msgs evs n ∧ ∀ m, msgs[n]? = some m → ∀ i < m.body.length, CameByte msgs evs n i

/-- What the peer keeps to: epochs do not go back, and what has to be encrypted
is. -/
structure PeerSteady (msgs : List HsMsg) : Prop extends PeerOk msgs where
  epochs : ∀ (i j : ℕ) (a b : HsMsg), i ≤ j → msgs[i]? = some a → msgs[j]? = some b → a.epoch.toNat ≤ b.epoch.toNat
  encryption : ∀ m ∈ msgs, msgCheckEncryption m.type m.encrypted = true

/-- A record of the peer that is read, and has memory. `split n` says whether the
peer sends message `n` in fragments or whole. -/
def Steady (msgs : List HsMsg) (split : ℕ → Bool) (ev : HsRecord) : Prop :=
  (ev.heap.ok = true ∧ ev.versionOk = true) ∧
    ∃ n m o k, msgs[n]? = some m ∧ Carries m n o k ev ∧ (split n = false ↔ o = 0 ∧ k = m.body.length)

/-- The messages from `n₀` on were handed on, each once, up to the one that is due. -/
structure Turn (msgs : List HsMsg) (n₀ : ℕ) (st : HsState) : Prop where
  due : st.expectedPeerHandshakeNumber = n₀ + takenCount st.calls
  taken : ∀ c ∈ st.calls, c.taken = true
  calls : Ordered msgs n₀ st.calls

/-- A library that takes each of the peer's messages at its turn, past the first
reply of a server. -/
structure Willing (msgs : List HsMsg) (n₀ : ℕ) (env : Env) : Prop where
  takes : ∀ st m, Turn msgs n₀ st → msgs[st.expectedPeerHandshakeNumber]? = some m →
    (env.doTls13HandShakeMsgType st m.type m.body).1 = .ok
  verified : ∀ st, env.beforeFirstReply st = false
  stateful : ∀ st, env.dtlsStateful st = true

theorem willing_agreeing (msgs : List HsMsg) (n₀ : ℕ) : Willing msgs n₀ Env.agreeing :=
  ⟨fun _ _ _ _ => rfl, fun _ => rfl, fun _ => rfl⟩

/-- A record of a message that was not handed on passes `EarlySanityCheckMsgReceived`
and `Dtls13CheckEpoch`. -/
def Checked (env : Env) (st : HsState) (ev : HsRecord) : Prop :=
  ∀ h ∈ getDtlsHandShakeHeader ev.versionOk ev.input, st.expectedPeerHandshakeNumber ≤ h.messageSeq →
    env.sanityCheck { st with records := st.records + 1 } h ev.curEpoch = true

/-- It is whole, or one that `Dtls13AcceptFragmented` accepts. -/
def Accepted (env : Env) (st : HsState) (ev : HsRecord) : Prop :=
  ∀ h ∈ getDtlsHandShakeHeader ev.versionOk ev.input, st.expectedPeerHandshakeNumber ≤ h.messageSeq →
    (h.fragOff = 0 ∧ h.fragLength = h.messageLength) ∨
      dtls13AcceptFragmented env { st with records := st.records + 1 } ev.encrypted h.type = true

instance (env : Env) (st : HsState) (ev : HsRecord) : Decidable (Checked env st ev) :=
  inferInstanceAs (Decidable (∀ h ∈ getDtlsHandShakeHeader ev.versionOk ev.input, _))

instance (env : Env) (st : HsState) (ev : HsRecord) : Decidable (Accepted env st ev) :=
  inferInstanceAs (Decidable (∀ h ∈ getDtlsHandShakeHeader ev.versionOk ev.input, _))

/-- There is room in the lists for the fragment. -/
def Room (st : HsState) (ev : HsRecord) : Prop :=
  st.rxMsgListSz < POOL_SZ ∧ ∀ h ∈ getDtlsHandShakeHeader ev.versionOk ev.input, ∀ msg ∈ st.rxMsgList,
    msg.seq = h.messageSeq → msg.fragBucketListCount < FRAG_POOL_SZ

instance (st : HsState) (ev : HsRecord) : Decidable (Room st ev) := inferInstanceAs (Decidable (_ ∧ _))

section Came

variable {msgs : List HsMsg} {m m' : HsMsg} {n n' o o' k k' i : ℕ} {ev : HsRecord} {evs : List HsRecord}

/-- A record says what it carries. -/
theorem carries_unique (hp : PeerOk msgs) (hm : msgs[n]? = some m) (hm' : msgs[n']? = some m') (h : Carries m n o k ev)
    (h' : Carries m' n' o' k' ev) : n = n' ∧ o = o' ∧ k = k' := by
  have heq := getHeader_of_carries hp hm h true
  rw [getHeader_of_carries hp hm' h' true, if_pos (Or.inl rfl), if_pos (Or.inl rfl)] at heq
  simp only [HsMsg.header, Option.some.injEq, HsHeader.mk.injEq] at heq
  exact ⟨heq.2.2.1.symm, heq.2.2.2.1.symm, heq.2.2.2.2.symm⟩

theorem header_of_steady (hp : PeerOk msgs) (hm : msgs[n]? = some m) (h : Carries m n o k ev)
    (hv : ev.versionOk = true) : getDtlsHandShakeHeader ev.versionOk ev.input = some (m.header n o k) := by
  rw [getHeader_of_carries hp hm h, if_pos (Or.inl hv)]

theorem came_snoc (hp : PeerOk msgs) (hm : msgs[n]? = some m) (h : Carries m n o k ev) :
    Came msgs (evs ++ [ev]) n' ↔ Came msgs evs n' ∨ n' = n := by
  constructor
  · rintro ⟨m', hm', e, he, o', k', hc⟩
    rcases List.mem_append.mp he with he | he
    · exact Or.inl ⟨m', hm', e, he, o', k', hc⟩
    · rw [List.mem_singleton.mp he] at hc
      exact Or.inr (carries_unique hp hm hm' h hc).1.symm
  · rintro (⟨m', hm', e, he, hc⟩ | rfl)
    · exact ⟨m', hm', e, List.mem_append_left _ he, hc⟩
    · exact ⟨m, hm, ev, by simp, o, k, h⟩

theorem cameByte_snoc (hp : PeerOk msgs) (hm : msgs[n]? = some m) (h : Carries m n o k ev) :
    CameByte msgs (evs ++ [ev]) n' i ↔ CameByte msgs evs n' i ∨ (n' = n ∧ o ≤ i ∧ i < o + k) := by
  constructor
  · rintro ⟨m', hm', e, he, o', k', hc, hi⟩
    rcases List.mem_append.mp he with he | he
    · exact Or.inl ⟨m', hm', e, he, o', k', hc, hi⟩
    · rw [List.mem_singleton.mp he] at hc
      obtain ⟨rfl, rfl, rfl⟩ := carries_unique hp hm hm' h hc
      exact Or.inr ⟨rfl, hi⟩
  · rintro (⟨m', hm', e, he, hc⟩ | ⟨rfl, hi⟩)
    · exact ⟨m', hm', e, List.mem_append_left _ he, hc⟩
    · exact ⟨m, hm, ev, by simp, o, k, h, hi⟩

theorem cameAll_snoc (h : CameAll msgs evs n) (ev : HsRecord) : CameAll msgs (evs ++ [ev]) n := by
  obtain ⟨⟨m, hm, e, he, hc⟩, hall⟩ := h
  refine ⟨⟨m, hm, e, List.mem_append_left _ he, hc⟩, fun m' hm' i hi => ?_⟩
  obtain ⟨m'', hm'', e', he', hc'⟩ := hall m' hm' i hi
  exact ⟨m'', hm'', e', List.mem_append_left _ he', hc'⟩

end Came

/-! ### The list -/

/-- A stored message: what it holds is what came of it. -/
structure Good (msgs : List HsMsg) (split : ℕ → Bool) (evs : List HsRecord) (msg : DtlsMsg) : Prop where
  holds : Holds msgs msg
  started : Started msg
  came : Came msgs evs msg.seq
  encrypted : ∀ m, msgs[msg.seq]? = some m → msg.encrypted = m.encrypted
  whole : ∀ m, msgs[msg.seq]? = some m → ∀ i < m.body.length, (Whole msg i ↔ CameByte msgs evs msg.seq i)
  ready : split msg.seq = false → msg.ready = true

/-- The numbers of the stored messages. -/
def seqs (l : List DtlsMsg) : List ℕ := l.map (·.seq)

/-- What holds when a record was stored or taken, before more is handed on. -/
structure Exact (msgs : List HsMsg) (split : ℕ → Bool) (n₀ : ℕ) (evs : List HsRecord) (st : HsState) : Prop where
  inv : HsInv msgs n₀ st
  taken : ∀ c ∈ st.calls, c.taken = true
  good : ∀ msg ∈ st.rxMsgList, Good msgs split evs msg
  sorted : (seqs st.rxMsgList).Pairwise (· < ·)
  ahead : ∀ n ∈ seqs st.rxMsgList, st.expectedPeerHandshakeNumber ≤ n
  stored : ∀ n, st.expectedPeerHandshakeNumber ≤ n → Came msgs evs n → n ∈ seqs st.rxMsgList
  past : ∀ n, n₀ ≤ n → n < st.expectedPeerHandshakeNumber → CameAll msgs evs n

section List

variable {msgs : List HsMsg} {split : ℕ → Bool} {n₀ : ℕ} {evs : List HsRecord} {st : HsState} {env : Env}

/-- A stored message that is complete has come. -/
theorem cameAll_of_ready {msg : DtlsMsg} (h : Good msgs split evs msg) (hr : msg.ready = true) :
    CameAll msgs evs msg.seq :=
  ⟨h.came, fun m hm i hi => (h.whole m hm i hi).mp (Or.inl hr)⟩

/-- A stored message that has come is complete. -/
theorem ready_of_cameAll {msg : DtlsMsg} (h : Good msgs split evs msg) (hc : CameAll msgs evs msg.seq) :
    msg.ready = true := by
  obtain ⟨m, hm, _, hx, _⟩ := h.holds
  exact ready_of_whole hx h.started fun i hi => (h.whole m hm i hi).mpr (hc.2 m hm i hi)

/-- The state when the message that is due was taken, with the list that is left. -/
def tookNext (st : HsState) (type : UInt8) (body : List UInt8) (rest : List DtlsMsg) (sz : ℕ) : HsState :=
  { st with
    expectedPeerHandshakeNumber := (st.expectedPeerHandshakeNumber + 1) % 2 ^ 16
    calls := st.calls ++ [⟨type, body, .ok, true⟩]
    rxMsgList := rest
    rxMsgListSz := sz }

theorem bufferedLoop_due (hst : ∀ st, env.dtlsStateful st = true) {msg : DtlsMsg} {rest : List DtlsMsg}
    (hdue : st.expectedPeerHandshakeNumber = msg.seq) (hready : msg.ready = true)
    (henc : msgCheckEncryption msg.type msg.encrypted = true)
    (htake : (env.doTls13HandShakeMsgType st msg.type (msg.raw.drop HANDSHAKE_HEADER_SZ)).1 = .ok) :
    bufferedLoop env (msg :: rest) st = bufferedLoop env rest
      (tookNext st msg.type (msg.raw.drop HANDSHAKE_HEADER_SZ) rest (st.rxMsgListSz - 1)) := by
  rw [bufferedLoop, if_neg (by simp [hdue, hready]), if_neg (by simp [henc])]
  simp [htake, dtls13MsgWasProcessed, hst, tookNext]

/-- That a record is read is no part of what came. -/
theorem Exact.record (h : Exact msgs split n₀ evs st) :
    Exact msgs split n₀ evs { st with records := st.records + 1 } :=
  ⟨h.inv.record, h.taken, h.good, h.sorted, h.ahead, h.stored, h.past⟩

theorem Exact.turn (h : Exact msgs split n₀ evs st) : Turn msgs n₀ st := ⟨h.inv.due, h.taken, h.inv.calls⟩

/-- The message that is due is taken, and it is not in the list that is left. -/
theorem exact_tookNext (hp : PeerSteady msgs) (hst : ∀ st, env.dtlsStateful st = true)
    (h : Exact msgs split n₀ evs st) {m : HsMsg} (hm : msgs[st.expectedPeerHandshakeNumber]? = some m)
    {evs' : List HsRecord} (hmono : ∀ n, CameAll msgs evs n → CameAll msgs evs' n)
    (hcame : CameAll msgs evs' st.expectedPeerHandshakeNumber) {type : UInt8} {body : List UInt8} (ht : type = m.type)
    (hb : body = m.body) {rest : List DtlsMsg} (sz : ℕ) (hgood : ∀ msg ∈ rest, Good msgs split evs' msg)
    (hsorted : (seqs rest).Pairwise (· < ·)) (hahead : ∀ n ∈ seqs rest, st.expectedPeerHandshakeNumber < n)
    (hstored : ∀ n, st.expectedPeerHandshakeNumber < n → Came msgs evs' n → n ∈ seqs rest) :
    Exact msgs split n₀ evs' (tookNext st type body rest sz) := by
  have hinv := inv_call env hp.toPeerOk h.inv hst hm (c := ⟨type, body, .ok, true⟩) ht hb
    (l := rest) (fun msg hmsg => (hgood msg hmsg).holds) sz
  have hexp : (tookNext st type body rest sz).expectedPeerHandshakeNumber = st.expectedPeerHandshakeNumber + 1 := by
    have hlt : st.expectedPeerHandshakeNumber < msgs.length := (List.getElem?_eq_some_iff.mp hm).1
    have hfew := hp.few
    exact Nat.mod_eq_of_lt (by omega)
  refine ⟨?_, ?_, hgood, hsorted, ?_, ?_, ?_⟩
  · simpa [dtls13MsgWasProcessed, hst, tookNext] using hinv
  · intro c hc
    rcases List.mem_append.mp hc with hc | hc
    · exact h.taken c hc
    · rw [List.mem_singleton.mp hc]
  · intro n hn
    rw [hexp]
    exact hahead n hn
  · intro n hn hc
    rw [hexp] at hn
    exact hstored n hn hc
  · intro n hn hlt
    rw [hexp] at hlt
    rcases Nat.lt_or_ge n st.expectedPeerHandshakeNumber with hlt' | hge
    · exact hmono n (h.past n hn hlt')
    · rwa [show n = st.expectedPeerHandshakeNumber by omega]

/-- The messages that are due are handed on, and then none is. -/
theorem exact_bufferedLoop (hp : PeerSteady msgs) (hw : Willing msgs n₀ env) : ∀ (l : List DtlsMsg) {st : HsState},
    Exact msgs split n₀ evs st → st.rxMsgList = l →
      Exact msgs split n₀ evs (bufferedLoop env l st).1 ∧
        dtls13NextMessageComplete (bufferedLoop env l st).1 = false
  | [], st, h, hl => ⟨h, by simp [bufferedLoop, dtls13NextMessageComplete, hl]⟩
  | msg :: rest, st, h, hl => by
    have hmsg := h.good msg (by simp [hl])
    by_cases hskip : st.expectedPeerHandshakeNumber ≠ msg.seq ∨ msg.ready = false
    · unfold bufferedLoop
      rw [if_pos hskip]
      refine ⟨h, ?_⟩
      simp only [dtls13NextMessageComplete, hl, Bool.and_eq_false_iff, decide_eq_false_iff_not]
      rcases hskip with hne | hr
      · exact Or.inr fun he => hne he.symm
      · exact Or.inl hr
    · rw [not_or, not_not, Bool.not_eq_false] at hskip
      obtain ⟨hdue, hready⟩ := hskip
      obtain ⟨m, hm, -⟩ := id hmsg.holds
      obtain ⟨hbody, htype⟩ := body_of_holds hmsg.holds hm hready
      have henc : msgCheckEncryption msg.type msg.encrypted = true := by
        rw [htype, hmsg.encrypted m hm]
        exact hp.encryption m (List.mem_of_getElem? hm)
      have hsorted := h.sorted
      rw [hl, seqs, List.map_cons, List.pairwise_cons] at hsorted
      have htake : (env.doTls13HandShakeMsgType st msg.type (msg.raw.drop HANDSHAKE_HEADER_SZ)).1 = .ok := by
        rw [htype, hbody]
        exact hw.takes st m h.turn (hdue ▸ hm)
      rw [bufferedLoop_due hw.stateful hdue hready henc htake]
      refine exact_bufferedLoop hp hw rest
        (exact_tookNext hp hw.stateful h (hdue ▸ hm) (fun _ => id) ?_ htype hbody _ ?_ hsorted.2 ?_ ?_) rfl
      · rw [hdue]
        exact cameAll_of_ready hmsg hready
      · intro x hx
        exact h.good x (by simp [hl, hx])
      · intro n hn
        rw [hdue]
        exact hsorted.1 n hn
      · intro n hn hc
        have hmem := h.stored n hn.le hc
        rw [hl, seqs, List.map_cons, List.mem_cons] at hmem
        exact hmem.resolve_left (by omega)

theorem exact_handOn (hp : PeerSteady msgs) (hw : Willing msgs n₀ env) (h : Exact msgs split n₀ evs st) :
    Exact msgs split n₀ evs (handOn env st).1 ∧ dtls13NextMessageComplete (handOn env st).1 = false := by
  unfold handOn
  by_cases hn : dtls13NextMessageComplete st = true
  · rw [if_pos hn]
    exact exact_bufferedLoop hp hw _ h rfl
  · rw [if_neg hn]
    exact ⟨h, by simpa using hn⟩

variable {m : HsMsg} {n o k : ℕ} {ev : HsRecord}

/-- The fragment of a record. -/
def fragOf (m : HsMsg) (n o k : ℕ) (ev : HsRecord) : Frag :=
  ⟨n, ev.curEpoch, m.type, o, excerpt ev.input HANDSHAKE_HEADER_SZ k, m.body.length, ev.encrypted⟩

theorem stop_fragOf (hc : Carries m n o k ev) : (fragOf m n o k ev).stop = o + k := by
  simp only [Frag.stop, fragOf]
  rw [data_of_carries hc, length_excerpt hc.le]

/-- **A fragment that is stored**: the message it is stored to holds what came of
it, with this fragment. The message is one of the list, or a new one. -/
theorem good_receive (split : ℕ → Bool) (evs : List HsRecord) (hp : PeerOk msgs) (hm : msgs[n]? = some m)
    (hc : Carries m n o k ev) {msg : DtlsMsg}
    (hx : Expects ⟨n, m.epoch, m.type⟩ m.body msg) (htr : Tracks ⟨n, m.epoch, m.type⟩ m.body msg)
    (hid : msg.ready = true → (msg.type = m.type ∧ msg.epoch = m.epoch) ∧ msg.seq = n)
    (henc : msg.type = NO_SHAKE ∧ msg.ready = false ∨ msg.encrypted = m.encrypted)
    (hwhole : ∀ i < m.body.length, (Whole msg i ↔ CameByte msgs evs n i)) (hok : ev.heap.ok = true)
    (hcount : msg.fragBucketListCount < FRAG_POOL_SZ) (hs : ¬Stray msg.fragBucketList o (o + k))
    (hsplit : split n = false → o = 0 ∧ k = m.body.length) :
    ∃ t, dtlsMsgSet ev.heap msg (fragOf m n o k ev) = some (t, .ok) ∧ Good msgs split (evs ++ [ev]) t ∧ t.seq = n := by
  have hf : (fragOf m n o k ev).Of ⟨n, m.epoch, m.type⟩ m.body := frag_of_carries hc
  have hstop := stop_fragOf hc
  have hacc := accepts_of hx hf
  obtain ⟨t, hset⟩ := dtlsMsgSet_ok hx.sane hacc hok hcount
  have ht := receive_eq_some hset
  obtain ⟨u, hu, hx', htr', hsub, hroom⟩ := receive_of ev.heap hx hf
  obtain rfl : u = t := Option.some.inj (hu.symm.trans ht)
  obtain ⟨hstart, hsup⟩ := hroom ⟨hok, hcount⟩
  rw [hstop] at htr' hsub hsup
  have hgap : ¬InGap msg.fragBucketList o (o + k) := fun h => hs (Or.inl h)
  have hcov : ∀ i, (fragOf m n o k ev).Covers i ↔ o ≤ i ∧ i < o + k := by
    intro i
    rw [Frag.Covers, hstop]
    rfl
  have hfields : (u.type = m.type ∧ u.epoch = m.epoch) ∧ u.seq = n := by
    cases hr : msg.ready with
    | true =>
      rw [receive_same (Or.inl hr) ht]
      exact hid hr
    | false =>
      obtain ⟨h₁, h₂, h₃⟩ := (receive_populates hx.sane hr hacc ht).1
      exact ⟨⟨h₁.trans hf.type, h₂.trans hf.epoch⟩, h₃.trans hf.seq⟩
  have hencrypted : u.encrypted = m.encrypted := by
    cases hr : msg.ready with
    | true =>
      rw [receive_same (Or.inl hr) ht]
      exact henc.resolve_left fun h => absurd (h.2.symm.trans hr) Bool.false_ne_true
    | false =>
      rw [(receive_populates hx.sane hr hacc ht).2, DtlsMsg.populated]
      dsimp only [fragOf]
      rw [hc.encrypted]
      by_cases hno : msg.type = NO_SHAKE
      · rw [if_pos hno]
      · rw [if_neg hno, henc.resolve_left fun h => hno h.1, Bool.and_self]
  have hwhole' : ∀ i < m.body.length, (Whole u i ↔ CameByte msgs (evs ++ [ev]) n i) := by
    intro i hi
    rw [cameByte_snoc hp hm hc, ← hwhole i hi]
    constructor
    · intro hw
      exact (hsub hgap i hi hw).imp_right fun h => ⟨rfl, (hcov i).mp h⟩
    · intro hw
      exact hsup hgap i hi (hw.imp_right fun h => (hcov i).mpr h.2)
  obtain ⟨⟨hty, hep⟩, hseq⟩ := hfields
  refine ⟨u, hset, ⟨⟨m, by rw [hseq]; exact hm, ⟨hty, hep⟩, by rw [hseq]; exact hx', ?_⟩, hstart, ?_, ?_, ?_, ?_⟩, hseq⟩
  · rw [hseq]
    exact htr' hs htr
  · rw [hseq]
    exact (came_snoc hp hm hc).mpr (Or.inr rfl)
  · intro m' hm'
    rw [hseq, hm] at hm'
    rw [hencrypted, Option.some.inj hm']
  · intro m' hm' i hi
    rw [hseq, hm] at hm'
    obtain rfl := Option.some.inj hm'
    rw [hseq]
    exact hwhole' i hi
  · intro hsp
    rw [hseq] at hsp
    obtain ⟨rfl, rfl⟩ := hsplit hsp
    apply ready_of_whole hx' hstart
    intro i hi
    exact (hwhole' i hi).mpr ((cameByte_snoc hp hm hc).mpr (Or.inr ⟨rfl, by omega, by omega⟩))

/-- A record of another message changes nothing. -/
theorem good_other (hp : PeerOk msgs) (hm : msgs[n]? = some m) (hc : Carries m n o k ev) {msg : DtlsMsg}
    (h : Good msgs split evs msg) (hne : msg.seq ≠ n) : Good msgs split (evs ++ [ev]) msg := by
  refine ⟨h.holds, h.started, (came_snoc hp hm hc).mpr (Or.inl h.came), h.encrypted, fun m' hm' i hi => ?_, h.ready⟩
  rw [cameByte_snoc hp hm hc, h.whole m' hm' i hi]
  constructor
  · exact Or.inl
  · intro hw
    exact hw.resolve_right fun h => hne h.1

/-- The message that `DtlsMsgFind` finds is set, the others stay. -/
theorem setFound_eq (heap : Heap) {f : Frag} : ∀ {l : List DtlsMsg}, l.any (isMsg f.epoch f.seq) = true →
    ∃ before msg after, l = before ++ msg :: after ∧ msg.seq = f.seq ∧
      setFound heap f l = (dtlsMsgSet heap msg f).map fun p => before ++ p.1 :: after
  | [], h => by simp at h
  | x :: l, h => by
    unfold setFound
    by_cases hx : isMsg f.epoch f.seq x = true
    · rw [if_pos hx]
      exact ⟨[], x, l, rfl, (isMsg_iff.mp hx).2, rfl⟩
    · rw [if_neg hx]
      rw [List.any_cons, Bool.or_eq_true] at h
      obtain ⟨before, msg, after, rfl, hseq, heq⟩ := setFound_eq heap (h.resolve_left hx)
      refine ⟨x :: before, msg, after, rfl, hseq, ?_⟩
      rw [heq]
      cases dtlsMsgSet heap msg f with
      | none => rfl
      | some p => rfl

/-- A new message goes to its place in the order of the numbers. -/
theorem sorted_insert {item : DtlsMsg} : ∀ {l : List DtlsMsg}, (seqs l).Pairwise (· < ·) → item.seq ∉ seqs l →
    (∀ msg ∈ l, item.seq < msg.seq → item.epoch.toNat ≤ msg.epoch.toNat) →
    (seqs (dtlsMsgInsert item l)).Pairwise (· < ·)
  | [], _, _, _ => by simp [dtlsMsgInsert, seqs]
  | cur :: tail, hs, hnot, hep => by
    rw [seqs, List.map_cons, List.pairwise_cons] at hs
    rw [seqs, List.map_cons, List.mem_cons, not_or] at hnot
    unfold dtlsMsgInsert
    by_cases h : item.epoch.toNat ≤ cur.epoch.toNat ∧ item.seq < cur.seq
    · rw [if_pos h, seqs, List.map_cons, List.map_cons, List.pairwise_cons, List.pairwise_cons]
      refine ⟨?_, hs⟩
      intro n hn
      rcases List.mem_cons.mp hn with rfl | hn
      · exact h.2
      · exact lt_trans h.2 (hs.1 n hn)
    · rw [if_neg h, seqs, List.map_cons, List.pairwise_cons]
      have hlt : cur.seq < item.seq := by
        have := hep cur List.mem_cons_self
        have := hnot.1
        omega
      refine ⟨?_, sorted_insert hs.2 hnot.2 fun msg hmsg => hep msg (List.mem_cons_of_mem _ hmsg)⟩
      intro n hn
      obtain ⟨msg, hmsg, rfl⟩ := List.mem_map.mp hn
      rcases mem_insert.mp hmsg with rfl | hmsg
      · exact hlt
      · exact hs.1 _ (List.mem_map_of_mem hmsg)

theorem seq_mem {msg : DtlsMsg} {l : List DtlsMsg} (h : msg ∈ l) : msg.seq ∈ seqs l := List.mem_map_of_mem h

/-- What stays when the list changes and the record is counted: the messages of
the list are good, and their numbers are those there were and `n`. -/
theorem exact_list (hp : PeerSteady msgs) (h : Exact msgs split n₀ evs st) (hm : msgs[n]? = some m)
    (hc : Carries m n o k ev) (hge : st.expectedPeerHandshakeNumber ≤ n) {l : List DtlsMsg} {sz : ℕ}
    (hgood : ∀ msg ∈ l, Good msgs split (evs ++ [ev]) msg) (hsorted : (seqs l).Pairwise (· < ·))
    (hseqs : ∀ x, x ∈ seqs l ↔ x = n ∨ x ∈ seqs st.rxMsgList) :
    Exact msgs split n₀ (evs ++ [ev]) { st with rxMsgList := l, rxMsgListSz := sz } := by
  refine ⟨⟨h.inv.due, h.inv.le, fun msg hmsg => (hgood msg hmsg).holds, h.inv.calls⟩, h.taken, hgood, hsorted, ?_, ?_,
    fun x hx hlt => cameAll_snoc (h.past x hx hlt) ev⟩
  · intro x hx
    rcases (hseqs x).mp hx with rfl | hx
    · exact hge
    · exact h.ahead x hx
  · intro x hx hcame
    rcases (came_snoc hp.toPeerOk hm hc).mp hcame with hcame | rfl
    · exact (hseqs x).mpr (Or.inr (h.stored x hx hcame))
    · exact (hseqs x).mpr (Or.inl rfl)

/-- `DtlsMsgStore` of a fragment of the peer. -/
theorem exact_store (hp : PeerSteady msgs) (h : Exact msgs split n₀ evs st) (hm : msgs[n]? = some m)
    (hc : Carries m n o k ev) (hge : st.expectedPeerHandshakeNumber ≤ n) (hok : ev.heap.ok = true)
    (hcount : ∀ msg ∈ st.rxMsgList, msg.seq = n → msg.fragBucketListCount < FRAG_POOL_SZ)
    (hs : ∀ msg ∈ st.rxMsgList, msg.seq = n → ¬Stray msg.fragBucketList o (o + k))
    (hsplit : split n = false → o = 0 ∧ k = m.body.length) :
    ∃ st', dtlsMsgStore ev.heap st (fragOf m n o k ev) = some st' ∧ Exact msgs split n₀ (evs ++ [ev]) st' := by
  have hepoch : ∀ msg ∈ st.rxMsgList, msg.seq = n → msg.epoch = m.epoch := by
    intro msg hmsg hseq
    obtain ⟨m', hm', ⟨_, hep⟩, _⟩ := h.inv.list msg hmsg
    rw [hseq, hm] at hm'
    rw [hep, Option.some.inj hm']
  unfold dtlsMsgStore
  by_cases hany : st.rxMsgList.any (isMsg (fragOf m n o k ev).epoch (fragOf m n o k ev).seq) = true
  · rw [if_pos hany]
    obtain ⟨before, msg, after, hl, hseq, heq⟩ := setFound_eq ev.heap hany
    have hseq' : msg.seq = n := hseq
    have hmem : msg ∈ st.rxMsgList := by simp [hl]
    have hgood := h.good msg hmem
    obtain ⟨m', hm', hid, hx, htr⟩ := id hgood.holds
    rw [hseq', hm] at hm'
    obtain rfl := Option.some.inj hm'
    rw [hseq'] at hx htr
    obtain ⟨t, ht, htgood, htseq⟩ := good_receive split evs hp.toPeerOk hm hc hx htr (fun _ => ⟨hid, hseq'⟩)
      (Or.inr (hgood.encrypted m (by rw [hseq']; exact hm)))
      (fun i hi => by
        have := hgood.whole m (by rw [hseq']; exact hm) i hi
        rwa [hseq'] at this)
      hok (hcount msg hmem hseq') (hs msg hmem hseq') hsplit
    rw [heq, ht]
    refine ⟨_, rfl, exact_list hp h hm hc hge ?_ ?_ ?_⟩
    · -- the numbers are distinct, so the others are of other messages
      have hsorted := h.sorted
      rw [hl, seqs, List.map_append, List.map_cons] at hsorted
      have hne : ∀ x ∈ before ++ after, x.seq ≠ n := by
        intro x hx'
        rw [List.pairwise_append] at hsorted
        obtain ⟨_, h₂, h₃⟩ := hsorted
        rcases List.mem_append.mp hx' with hx' | hx'
        · exact Nat.ne_of_lt (hseq' ▸ h₃ _ (List.mem_map_of_mem hx') _ List.mem_cons_self)
        · exact Nat.ne_of_gt (hseq' ▸ (List.pairwise_cons.mp h₂).1 _ (List.mem_map_of_mem hx'))
      intro x hx'
      simp only [List.mem_append, List.mem_cons] at hx'
      rcases hx' with hx' | rfl | hx'
      · exact good_other hp.toPeerOk hm hc (h.good x (by simp [hl, hx'])) (hne x (by simp [hx']))
      · exact htgood
      · exact good_other hp.toPeerOk hm hc (h.good x (by simp [hl, hx'])) (hne x (by simp [hx']))
    · have hsorted := h.sorted
      rw [hl, seqs, List.map_append, List.map_cons, hseq'] at hsorted
      rwa [seqs, List.map_append, List.map_cons, htseq]
    · intro x
      rw [hl, seqs, seqs, List.map_append, List.map_append, List.map_cons, List.map_cons, hseq', htseq]
      simp only [List.mem_append, List.mem_cons]
      tauto
  · rw [if_neg hany, if_pos hok]
    have hnot : n ∉ seqs st.rxMsgList := by
      intro hn
      obtain ⟨msg, hmsg, hseq⟩ := List.mem_map.mp hn
      apply hany
      rw [List.any_eq_true]
      exact ⟨msg, hmsg, isMsg_iff.mpr ⟨(hepoch msg hmsg hseq).trans hc.epoch.symm, hseq⟩⟩
    have hnone : ∀ i, ¬CameByte msgs evs n i := by
      rintro i ⟨m', hm', e, he, o', k', hc', -⟩
      exact hnot (h.stored n hge ⟨m', hm', e, he, o', k', hc'⟩)
    obtain ⟨t, ht, htgood, htseq⟩ := good_receive split evs hp.toPeerOk hm hc
      (expects_new _ (hp.small m (List.mem_of_getElem? hm))) (tracks_new _) (by simp [dtlsMsgNew])
      (Or.inl ⟨rfl, rfl⟩) (fun i _ => by simp [Whole, dtlsMsgNew, Has, hnone]) hok (by simp [dtlsMsgNew, FRAG_POOL_SZ])
      (by simp [dtlsMsgNew, Stray, InGap, CutsFront]) hsplit
    have ht' : dtlsMsgSet ev.heap (dtlsMsgNew (fragOf m n o k ev).totalLen) (fragOf m n o k ev) = some (t, .ok) := ht
    rw [ht', Option.map_some]
    refine ⟨_, rfl, ?_⟩
    dsimp only
    rw [if_pos rfl]
    refine exact_list hp h hm hc hge ?_ ?_ ?_
    · intro x hx
      rcases mem_insert.mp hx with rfl | hx
      · exact htgood
      · exact good_other hp.toPeerOk hm hc (h.good x hx) fun hseq => hnot (hseq ▸ seq_mem hx)
    · apply sorted_insert h.sorted (htseq ▸ hnot)
      intro msg hmsg hlt
      obtain ⟨m', hm', ⟨_, hep⟩, _⟩ := h.inv.list msg hmsg
      obtain ⟨m'', hm'', ⟨_, hep'⟩, _⟩ := htgood.holds
      rw [hep, hep']
      exact hp.epochs t.seq msg.seq m'' m' hlt.le hm'' hm'
    · intro x
      simp only [seqs, List.mem_map]
      constructor
      · rintro ⟨msg, hmsg, rfl⟩
        rcases mem_insert.mp hmsg with rfl | hmsg
        · exact Or.inl htseq
        · exact Or.inr ⟨msg, hmsg, rfl⟩
      · rintro (rfl | ⟨msg, hmsg, rfl⟩)
        · exact ⟨t, mem_insert.mpr (Or.inl rfl), htseq⟩
        · exact ⟨msg, mem_insert.mpr (Or.inr hmsg), rfl⟩

/-- The message that is due can only be the first of the list. -/
theorem not_mem_of_waiting (h : Exact msgs split n₀ evs st) (hwait : dtls13NextMessageComplete st = false)
    {msg : DtlsMsg} (hmsg : msg ∈ st.rxMsgList) (hseq : msg.seq = st.expectedPeerHandshakeNumber) :
    msg.ready = false := by
  cases hl : st.rxMsgList with
  | nil => simp [hl] at hmsg
  | cons first rest =>
    have hfirst : first = msg := by
      rw [hl] at hmsg
      rcases List.mem_cons.mp hmsg with rfl | hmsg
      · rfl
      · have hsorted := h.sorted
        rw [hl, seqs, List.map_cons, List.pairwise_cons] at hsorted
        have hlt := hsorted.1 _ (List.mem_map_of_mem hmsg)
        have hge := h.ahead first.seq (by simp [seqs, hl])
        omega
    simp only [dtls13NextMessageComplete, hl, Bool.and_eq_false_iff, decide_eq_false_iff_not] at hwait
    rw [← hfirst]
    exact hwait.resolve_right fun hne => hne (by rw [hfirst, hseq])

/-- A record of a message that was handed on. -/
theorem exact_old (hp : PeerSteady msgs) (h : Exact msgs split n₀ evs st) (hm : msgs[n]? = some m)
    (hc : Carries m n o k ev) (hlt : n < st.expectedPeerHandshakeNumber) : Exact msgs split n₀ (evs ++ [ev]) st := by
  refine ⟨h.inv, h.taken, fun msg hmsg => ?_, h.sorted, h.ahead, fun x hx hcame => ?_,
    fun x hx hx' => cameAll_snoc (h.past x hx hx') ev⟩
  · have := h.ahead msg.seq (seq_mem hmsg)
    exact good_other hp.toPeerOk hm hc (h.good msg hmsg) (by omega)
  · exact h.stored x hx (((came_snoc hp.toPeerOk hm hc).mp hcame).resolve_right (by omega))

/-- The message that is due, whole. -/
theorem takeFragment_whole (st : HsState) (ev : HsRecord) (m : HsMsg) (hst : ∀ st, env.dtlsStateful st = true)
    (hsync : env.usingAsyncCrypto = false) (hn : st.expectedPeerHandshakeNumber = n)
    (htake : (env.doTls13HandShakeMsgType st m.type (excerpt ev.input HANDSHAKE_HEADER_SZ m.body.length)).1 = .ok) :
    ∃ idx, takeFragment env st ev (m.header n 0 m.body.length) =
      some ((handOn env (tookNext st m.type (excerpt ev.input HANDSHAKE_HEADER_SZ m.body.length) st.rxMsgList
          st.rxMsgListSz)).1,
        (handOn env (tookNext st m.type (excerpt ev.input HANDSHAKE_HEADER_SZ m.body.length) st.rxMsgList
          st.rxMsgListSz)).2, idx) := by
  have hstate : dtls13MsgWasProcessed env { st with
      calls := st.calls ++ [⟨m.type, excerpt ev.input HANDSHAKE_HEADER_SZ m.body.length, .ok, true⟩] } =
      tookNext st m.type (excerpt ev.input HANDSHAKE_HEADER_SZ m.body.length) st.rxMsgList st.rxMsgListSz := by
    simp [dtls13MsgWasProcessed, hst, tookNext]
  rw [takeFragment, if_neg (by simp [HsMsg.header, hsync, hn])]
  simp only [HsMsg.header, htake, if_true, decide_true, hstate]
  exact ⟨_, rfl⟩

/-- A fragment that is stored. -/
theorem takeFragment_stored
    (hstore : ¬(o = 0 ∧ k = m.body.length) ∨ st.expectedPeerHandshakeNumber < n ∨ env.usingAsyncCrypto = true)
    (hpool : st.rxMsgListSz < POOL_SZ) {st' : HsState}
    (hst : dtlsMsgStore ev.heap st (fragOf m n o k ev) = some st') :
    takeFragment env st ev (m.header n o k) =
      some ((handOn env st').1, (handOn env st').2, HANDSHAKE_HEADER_SZ + k + ev.padSz) := by
  unfold takeFragment
  refine (if_pos hstore).trans ((if_pos hpool).trans ?_)
  exact congrArg (Option.map _) hst

/-- A fragment that is not refused. -/
theorem exact_takeFragment (hp : PeerSteady msgs) (hw : Willing msgs n₀ env) (h : Exact msgs split n₀ evs st)
    (hwait : dtls13NextMessageComplete st = false) (hm : msgs[n]? = some m) (hc : Carries m n o k ev)
    (hge : st.expectedPeerHandshakeNumber ≤ n) (hok : ev.heap.ok = true) (hpool : st.rxMsgListSz < POOL_SZ)
    (hcount : ∀ msg ∈ st.rxMsgList, msg.seq = n → msg.fragBucketListCount < FRAG_POOL_SZ)
    (hs : ∀ msg ∈ st.rxMsgList, msg.seq = n → ¬Stray msg.fragBucketList o (o + k))
    (hsplit : split n = false ↔ o = 0 ∧ k = m.body.length) :
    ∃ p, takeFragment env st ev (m.header n o k) = some p ∧ Exact msgs split n₀ (evs ++ [ev]) p.1 ∧
      dtls13NextMessageComplete p.1 = false := by
  by_cases hstore : ¬(o = 0 ∧ k = m.body.length) ∨ st.expectedPeerHandshakeNumber < n ∨ env.usingAsyncCrypto = true
  · obtain ⟨st', hst', hexact⟩ := exact_store hp h hm hc hge hok hcount hs hsplit.mp
    exact ⟨_, takeFragment_stored hstore hpool hst', exact_handOn hp hw hexact⟩
  · -- the whole message, and it is due: it is not in the list
    simp only [not_or, not_not, Bool.not_eq_true] at hstore
    obtain ⟨⟨rfl, rfl⟩, hle, hsync⟩ := hstore
    obtain rfl : st.expectedPeerHandshakeNumber = n := by omega
    have hnot : ∀ msg ∈ st.rxMsgList, msg.seq ≠ st.expectedPeerHandshakeNumber := by
      intro msg hmsg hseq
      have hready := (h.good msg hmsg).ready (by rw [hseq]; exact hsplit.mpr ⟨rfl, rfl⟩)
      exact absurd ((not_mem_of_waiting h hwait hmsg hseq).symm.trans hready) Bool.false_ne_true
    have hbody : excerpt ev.input HANDSHAKE_HEADER_SZ m.body.length = m.body := by
      rw [data_of_carries hc, excerpt_all]
    have hexact : Exact msgs split n₀ (evs ++ [ev]) (tookNext st m.type
        (excerpt ev.input HANDSHAKE_HEADER_SZ m.body.length) st.rxMsgList st.rxMsgListSz) := by
      refine exact_tookNext hp hw.stateful h hm (fun x hx => cameAll_snoc hx ev) ?_ rfl hbody _ ?_ h.sorted ?_ ?_
      · refine ⟨(came_snoc hp.toPeerOk hm hc).mpr (Or.inr rfl), fun m' hm' i hi => ?_⟩
        obtain rfl := Option.some.inj (hm.symm.trans hm')
        exact (cameByte_snoc hp.toPeerOk hm hc).mpr (Or.inr ⟨rfl, by omega, by omega⟩)
      · intro msg hmsg
        exact good_other hp.toPeerOk hm hc (h.good msg hmsg) (hnot msg hmsg)
      · intro x hx
        obtain ⟨msg, hmsg, rfl⟩ := List.mem_map.mp hx
        exact lt_of_le_of_ne (h.ahead msg.seq (seq_mem hmsg)) (hnot msg hmsg).symm
      · intro x hx hcame
        exact h.stored x hx.le (((came_snoc hp.toPeerOk hm hc).mp hcame).resolve_right (by omega))
    have htake : (env.doTls13HandShakeMsgType st m.type (excerpt ev.input HANDSHAKE_HEADER_SZ m.body.length)).1 =
        .ok := by
      rw [hbody]
      exact hw.takes st m h.turn hm
    obtain ⟨idx, heq⟩ := takeFragment_whole st ev m hw.stateful hsync rfl htake
    exact ⟨_, heq, exact_handOn hp hw hexact⟩

/-- A record of the peer is one of a message that was handed on, or its fragment
is taken. -/
theorem recv_of_carries (hreply : ∀ st, env.beforeFirstReply st = false) (hc : Carries m n o k ev)
    (hhdr : getDtlsHandShakeHeader ev.versionOk ev.input = some (m.header n o k)) (hcheck : Checked env st ev)
    (hacc : Accepted env st ev) : hsStep env st ev =
      if n < st.expectedPeerHandshakeNumber then some { st with records := st.records + 1 }
      else (takeFragment env { st with records := st.records + 1 } ev (m.header n o k)).map (·.1) := by
  have hlen : ¬ev.input.length < HANDSHAKE_HEADER_SZ + (m.header n o k).fragLength := by
    obtain ⟨rest, hin⟩ := hc.input
    rw [hin, List.length_append, List.length_append, length_addHeaderFrag, length_excerpt hc.le]
    simp only [HsMsg.header]
    omega
  have hle : ¬(m.header n o k).messageLength < (m.header n o k).fragOff + (m.header n o k).fragLength := by
    have := hc.le
    simp only [HsMsg.header]
    omega
  unfold hsStep dtls13HandshakeRecv
  rw [hhdr]
  dsimp only
  rw [hreply, if_neg Bool.false_ne_true, recvFragment, if_neg hlen, if_neg hle]
  by_cases hold : n < st.expectedPeerHandshakeNumber
  · -- whether or not it passes the checks
    rw [if_pos hold]
    split
    · rfl
    · exact congrArg (Option.map _) (if_pos hold)
  · have hge : st.expectedPeerHandshakeNumber ≤ (m.header n o k).messageSeq := Nat.le_of_not_lt hold
    have hpass := hcheck _ hhdr hge
    have hfrag : ¬(¬((m.header n o k).fragOff = 0 ∧ (m.header n o k).fragLength = (m.header n o k).messageLength) ∧
        dtls13AcceptFragmented env { st with records := st.records + 1 } ev.encrypted (m.header n o k).type = false) := by
      rw [not_and, Bool.not_eq_false]
      exact (hacc _ hhdr hge).resolve_left
    rw [if_neg hold, hpass, if_neg (by simp), if_neg hfrag]
    exact congrArg (Option.map _) (if_neg hold)

/-- One record of the peer. -/
theorem exact_recv (split : ℕ → Bool) (hp : PeerSteady msgs) (hw : Willing msgs n₀ env)
    (h : Exact msgs split n₀ evs st) (hwait : dtls13NextMessageComplete st = false) (hev : Steady msgs split ev)
    (hcheck : Checked env st ev) (hacc : Accepted env st ev) (hs : Clean st ev) (hr : Room st ev) :
    ∃ st', hsStep env st ev = some st' ∧ Exact msgs split n₀ (evs ++ [ev]) st' ∧
      dtls13NextMessageComplete st' = false := by
  obtain ⟨⟨hok, hv⟩, n, m, o, k, hm, hc, hsplit⟩ := hev
  obtain ⟨hpool, hcount⟩ := hr
  have hhdr := header_of_steady hp.toPeerOk hm hc hv
  have hrec := h.record
  rw [recv_of_carries hw.verified hc hhdr hcheck hacc]
  by_cases hold : n < st.expectedPeerHandshakeNumber
  · rw [if_pos hold]
    exact ⟨_, rfl, exact_old hp hrec hm hc hold, hwait⟩
  · rw [if_neg hold]
    obtain ⟨p, hp', hexact⟩ := exact_takeFragment hp hw hrec hwait hm hc (Nat.le_of_not_lt hold) hok hpool
      (hcount _ hhdr) (hs _ hhdr) hsplit
    exact ⟨p.1, by rw [hp']; rfl, hexact⟩

theorem exact_init (n₀ : ℕ) (hn : n₀ ≤ msgs.length) :
    Exact msgs split n₀ [] { expectedPeerHandshakeNumber := n₀ } where
  inv := ⟨rfl, hn, by simp, by simp [Ordered]⟩
  taken := by simp
  good := by simp
  sorted := by simp [seqs]
  ahead := by simp [seqs]
  stored := by
    rintro n - ⟨m, -, ev, hev, -⟩
    simp at hev
  past := by
    intro n hn hlt
    exact absurd hlt (Nat.not_lt.mpr hn)

/-- The messages handed on, when all were taken. -/
theorem calls_of_ordered {calls : List Call} (h : Ordered msgs n₀ calls) (ht : ∀ c ∈ calls, c.taken = true) (i : ℕ)
    (hi : i < calls.length) :
    ∃ m c, msgs[n₀ + i]? = some m ∧ calls[i]? = some c ∧ c.type = m.type ∧ c.body = m.body := by
  obtain ⟨m, hm, hc⟩ := h i _ (List.getElem?_eq_getElem hi)
  have hcount : takenCount (calls.take i) = i := by
    rw [takenCount, List.countP_eq_length.mpr fun c hc => ht c (List.mem_of_mem_take hc), List.length_take]
    omega
  rw [hcount] at hm
  exact ⟨m, _, hm, List.getElem?_eq_getElem hi, hc⟩

end List

/-! ### A message in fragments and whole -/

section Stuck

variable {msgs : List HsMsg} {env : Env} {st st' : HsState} {m : HsMsg} {n₀ n n' o k : ℕ} {ev : HsRecord}

end Stuck

/-- What was handed on, when nothing is due: the messages that have come, up to
the first that has not. -/
theorem outcome_of_exact {msgs : List HsMsg} {split : ℕ → Bool} {n₀ : ℕ} {evs : List HsRecord} {st : HsState}
    (h : Exact msgs split n₀ evs st) (hwait : dtls13NextMessageComplete st = false) :
    (∀ i < st.calls.length, ∃ m c, msgs[n₀ + i]? = some m ∧ st.calls[i]? = some c ∧ c.type = m.type ∧ c.body = m.body) ∧
      ∀ n, n₀ ≤ n → (n < n₀ + st.calls.length ↔ ∀ j, n₀ ≤ j → j ≤ n → CameAll msgs evs j) := by
  have hlen : st.expectedPeerHandshakeNumber = n₀ + st.calls.length := by
    rw [h.inv.due, takenCount, List.countP_eq_length.mpr h.taken]
  refine ⟨calls_of_ordered h.inv.calls h.taken, fun n hn => ?_⟩
  rw [← hlen]
  constructor
  · intro hlt j hj hjn
    exact h.past j hj (by omega)
  · intro hall
    by_contra hge
    -- the message that is due has come, so it is stored and complete
    have hcame := hall st.expectedPeerHandshakeNumber (by omega) (by omega)
    obtain ⟨msg, hmsg, hseq⟩ := List.mem_map.mp (h.stored _ le_rfl hcame.1)
    have hready := ready_of_cameAll (h.good msg hmsg) (hseq ▸ hcame)
    exact absurd ((not_mem_of_waiting h hwait hmsg hseq).symm.trans hready) Bool.false_ne_true

/-- **A message is handed on exactly when it and all before it have come.** The
fragments may come in any order and more than once; each message is handed on
once. The library takes the peer's messages at their turn, and the fragments pass
its checks, are accepted, are not stray and have room. -/
theorem handled_iff_came (msgs : List HsMsg) (hp : PeerSteady msgs) (split : ℕ → Bool) (env : Env) (n₀ : ℕ)
    (hw : Willing msgs n₀ env) (hn : n₀ ≤ msgs.length) (evs : List HsRecord)
    (hev : ∀ ev ∈ evs, Steady msgs split ev)
    (hm : Meets (hsStep env) (fun st ev => (Checked env st ev ∧ Accepted env st ev) ∧ Clean st ev ∧ Room st ev)
      { expectedPeerHandshakeNumber := n₀ } evs) :
    ∃ st, run (hsStep env) { expectedPeerHandshakeNumber := n₀ } evs = some st ∧
      (∀ i < st.calls.length,
        ∃ m c, msgs[n₀ + i]? = some m ∧ st.calls[i]? = some c ∧ c.type = m.type ∧ c.body = m.body) ∧
      ∀ n, n₀ ≤ n → (n < n₀ + st.calls.length ↔ ∀ j, n₀ ≤ j → j ≤ n → CameAll msgs evs j) := by
  obtain ⟨st, hrun, hexact, hwait⟩ := run_exists_of_history (hsStep env) (Q := Steady msgs split)
    (I := fun evs st => Exact msgs split n₀ evs st ∧ dtls13NextMessageComplete st = false)
    (fun evs st ev h hq hok => exact_recv split hp hw h.1 h.2 hq hok.1.1 hok.1.2 hok.2.1 hok.2.2) evs (h := [])
    ⟨exact_init n₀ hn, rfl⟩ hev hm
  rw [List.nil_append] at hexact
  exact ⟨st, hrun, outcome_of_exact hexact hwait⟩

theorem steady_serverFlight : PeerSteady serverFlight := by
  refine ⟨⟨by decide, by decide⟩, ?_, by decide⟩
  intro i j a b hij ha hb
  have hi : i < 3 := (List.getElem?_eq_some_iff.mp ha).1
  have hj : j < 3 := (List.getElem?_eq_some_iff.mp hb).1
  interval_cases i <;> interval_cases j <;> simp [serverFlight] at hij ha hb <;> subst ha hb <;> decide

/-- The ServerHello, the certificate in two fragments, the second first, and then the
message before it. -/
def certificateInParts : List HsRecord :=
  [recordOf ⟨SERVER_HELLO, 0, false, [1, 2]⟩ 0 0 2, recordOf ⟨CERTIFICATE, 2, true, [7, 8, 9]⟩ 2 2 1,
    recordOf ⟨CERTIFICATE, 2, true, [7, 8, 9]⟩ 2 0 2, recordOf ⟨ENCRYPTED_EXTENSIONS, 2, true, [5]⟩ 1 0 1]

theorem handled_iff_came_reordered :
    ∃ st, run (hsStep Env.agreeing) { expectedPeerHandshakeNumber := 0 } certificateInParts = some st ∧
      st.calls.map (·.body) = [[1, 2], [5], [7, 8, 9]] ∧ CameAll serverFlight certificateInParts 2 := by
  have hev : ∀ ev ∈ certificateInParts, Steady serverFlight (· == 2) ev := by
    intro ev hev
    simp only [certificateInParts, List.mem_cons, List.not_mem_nil, or_false] at hev
    rcases hev with rfl | rfl | rfl | rfl
    · exact ⟨⟨rfl, rfl⟩, 0, _, 0, 2, rfl, carries_recordOf (by decide), by decide⟩
    · exact ⟨⟨rfl, rfl⟩, 2, _, 2, 1, rfl, carries_recordOf (by decide), by decide⟩
    · exact ⟨⟨rfl, rfl⟩, 2, _, 0, 2, rfl, carries_recordOf (by decide), by decide⟩
    · exact ⟨⟨rfl, rfl⟩, 1, _, 0, 1, rfl, carries_recordOf (by decide), by decide⟩
  obtain ⟨st, hrun, -, hiff⟩ := handled_iff_came serverFlight steady_serverFlight (· == 2) Env.agreeing 0
    (willing_agreeing _ _) (by decide) _ hev (by decide)
  have hbodies : st.calls.map (·.body) = [[1, 2], [5], [7, 8, 9]] := by
    rw [← Option.some.inj hrun]
    decide
  have hlen : st.calls.length = 3 := by
    rw [← List.length_map (f := (·.body)), hbodies]
    rfl
  exact ⟨st, hrun, hbodies, (hiff 2 (by decide)).mp (by omega) 2 (by decide) le_rfl⟩

end Reassembly
end PqcDtls
