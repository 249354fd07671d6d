/-
# A flight in any order

The sender and the receiver together: the records that `Dtls13HandshakeSend`
makes of the peer's messages, each message whole or in fragments of one size, go
through a network that loses, repeats and reorders them, and `_Dtls13HandshakeRecv`
takes what arrives. The flight is one that is protected, with keys that the
receiver has: before the ServerHello is handed on nothing behind it can be
decrypted. When no message needs more than four fragments, no fragment is ever
stray and there is always room, so that the messages are handed on whole, in order
and as soon as they can be: `flight_in_any_order`.
-/
import PqcDtls.Delivery

namespace PqcDtls
namespace Reassembly

open Lib

/-! ### The sender -/

/-- `Dtls13HandshakeSend`: the fragments of a message. `fragLength` is what the two
headers leave of `maxFrag`, so that the source's `length < maxFrag` is the test here:
a smaller message goes in one piece. -/
def dtls13HandshakeSend (fragLength : ℕ) (message : List UInt8) : List (ℕ × List UInt8) :=
  if message.length < fragLength then [(0, message)] else dtls13SendFragmentedInternal fragLength message

/-- A record with one of the fragments of message `n`. -/
def SentRecord (k : ℕ) (m : HsMsg) (n o len : ℕ) (ev : HsRecord) : Prop :=
  Carries m n o len ev ∧ (o, excerpt m.body o len) ∈ dtls13HandshakeSend k m.body

section Sender

variable {k : ℕ} {m : HsMsg} {n o len : ℕ} {ev : HsRecord} {msgs : List HsMsg}

/-- A message is sent whole if it fits into one fragment. -/
theorem sent_whole_or (hk : 0 < k) (h : SentRecord k m n o len ev) :
    (m.body.length ≤ k ∧ o = 0 ∧ len = m.body.length) ∨
      (k < m.body.length ∧ len ≤ k ∧ (o, excerpt m.body o len) ∈ dtls13SendFragmentedInternal k m.body) := by
  obtain ⟨hc, hmem⟩ := h
  have hlen : (excerpt m.body o len).length = len := length_excerpt hc.le
  unfold dtls13HandshakeSend at hmem
  split at hmem
  · rename_i hsmall
    obtain ⟨rfl, hbody⟩ := Prod.mk.inj (List.mem_singleton.mp hmem)
    rw [hbody] at hlen
    exact Or.inl ⟨hsmall.le, rfl, hlen.symm⟩
  · obtain ⟨j, hj, hlt, hd⟩ := (mem_send hk).mp hmem
    have hmin : len = min k (m.body.length - o) := by
      rw [← hlen, hd]
      apply length_excerpt
      omega
    rcases Nat.lt_or_ge k m.body.length with hbig | hbig
    · exact Or.inr ⟨hbig, by omega, hmem⟩
    · have hj0 : j = 0 := by
        by_contra hj0
        have : 1 * k ≤ j * k := Nat.mul_le_mul_right k (by omega)
        omega
      subst hj0
      exact Or.inl ⟨hbig, by omega, by omega⟩

/-- Whether message `n` is sent in fragments. -/
def splits (msgs : List HsMsg) (k n : ℕ) : Bool := msgs[n]?.any fun m => decide (k < m.body.length)

theorem steady_of_sent (hk : 0 < k) (hm : msgs[n]? = some m) (h : SentRecord k m n o len ev)
    (hok : ev.heap.ok = true ∧ ev.versionOk = true) : Steady msgs (splits msgs k) ev := by
  refine ⟨hok, n, m, o, len, hm, h.1, ?_⟩
  simp only [splits, hm, Option.any_some, decide_eq_false_iff_not, Nat.not_lt]
  rcases sent_whole_or hk h with ⟨hle, ho, hl⟩ | ⟨hlt, hl, _⟩
  · exact ⟨fun _ => ⟨ho, hl⟩, fun _ => hle⟩
  · constructor
    · intro hle
      omega
    · rintro ⟨-, rfl⟩
      exact hl

end Sender

/-! ### The list of stored messages -/

section List

variable {env : Env} {st st' : HsState} {m : HsMsg} {n o k : ℕ} {ev : HsRecord} {msgs : List HsMsg}

/-- Handing on takes messages from the list and changes none. -/
theorem mem_bufferedLoop : ∀ (l : List DtlsMsg) {st : HsState}, st.rxMsgList = l →
    ∀ msg ∈ (bufferedLoop env l st).1.rxMsgList, msg ∈ l
  | [], st, hl, msg, hmsg => by
    simp only [bufferedLoop, hl] at hmsg
    exact hmsg
  | first :: rest, st, hl, msg, hmsg => by
    unfold bufferedLoop at hmsg
    split at hmsg
    · exact hl ▸ hmsg
    split at hmsg
    · exact hl ▸ hmsg
    dsimp only at hmsg
    split at hmsg
    · have hlist : ∀ s : HsState, s.rxMsgList = rest → (dtls13MsgWasProcessed env s).rxMsgList = rest := by
        intro s hs
        unfold dtls13MsgWasProcessed
        split
        · exact hs
        · exact hs
      split at hmsg
      · exact List.mem_cons_of_mem _ (mem_bufferedLoop rest (hlist _ rfl) msg hmsg)
      · rw [hlist _ rfl] at hmsg
        exact List.mem_cons_of_mem _ hmsg
    · exact hl ▸ hmsg

theorem mem_handOn {msg : DtlsMsg} (h : msg ∈ (handOn env st).1.rxMsgList) : msg ∈ st.rxMsgList := by
  unfold handOn at h
  split at h
  · exact mem_bufferedLoop _ rfl msg h
  · exact h

theorem mem_setFound {heap : Heap} {f : Frag} : ∀ {l l' : List DtlsMsg}, setFound heap f l = some l' →
    ∀ msg ∈ l', msg ∈ l ∨ ∃ old ∈ l, old.seq = f.seq ∧ receive old (heap, f) = some msg
  | [], l', h, msg, hmsg => by
    obtain rfl := Option.some.inj h
    simp at hmsg
  | x :: l, l', h, msg, hmsg => by
    unfold setFound at h
    split at h
    · rename_i hx
      obtain ⟨p, hp, rfl⟩ := Option.map_eq_some_iff.mp h
      rcases List.mem_cons.mp hmsg with rfl | hmsg
      · exact Or.inr ⟨x, List.mem_cons_self, (isMsg_iff.mp hx).2, receive_eq_some hp⟩
      · exact Or.inl (List.mem_cons_of_mem _ hmsg)
    · obtain ⟨l'', hl'', rfl⟩ := Option.map_eq_some_iff.mp h
      rcases List.mem_cons.mp hmsg with rfl | hmsg
      · exact Or.inl List.mem_cons_self
      · rcases mem_setFound hl'' msg hmsg with hmem | ⟨old, hold, hseq, hrecv⟩
        · exact Or.inl (List.mem_cons_of_mem _ hmem)
        · exact Or.inr ⟨old, List.mem_cons_of_mem _ hold, hseq, hrecv⟩

/-- A stored message is one that was stored, or one of them or a new one with the
fragment. -/
theorem mem_store {heap : Heap} {f : Frag} (h : dtlsMsgStore heap st f = some st') {msg : DtlsMsg}
    (hmsg : msg ∈ st'.rxMsgList) : msg ∈ st.rxMsgList ∨
      ∃ old, (old ∈ st.rxMsgList ∧ old.seq = f.seq ∨ old = dtlsMsgNew f.totalLen) ∧
        receive old (heap, f) = some msg := by
  unfold dtlsMsgStore at h
  split at h
  · obtain ⟨l, hl, rfl⟩ := Option.map_eq_some_iff.mp h
    rcases mem_setFound hl msg hmsg with hmem | ⟨old, hold, hseq, hrecv⟩
    · exact Or.inl hmem
    · exact Or.inr ⟨old, Or.inl ⟨hold, hseq⟩, hrecv⟩
  · split at h
    · obtain ⟨⟨t, r⟩, ht, rfl⟩ := Option.map_eq_some_iff.mp h
      dsimp only at hmsg
      split at hmsg
      · rcases mem_insert.mp hmsg with rfl | hmsg
        · exact Or.inr ⟨_, Or.inr rfl, receive_eq_some ht⟩
        · exact Or.inl hmsg
      · exact Or.inl hmsg
    · obtain rfl := Option.some.inj h
      exact Or.inl hmsg

theorem mem_takeFragment {p : HsState × HsRet × ℕ} (h : takeFragment env st ev (m.header n o k) = some p)
    {msg : DtlsMsg} (hmsg : msg ∈ p.1.rxMsgList) : msg ∈ st.rxMsgList ∨
      ∃ old, (old ∈ st.rxMsgList ∧ old.seq = n ∨ old = dtlsMsgNew m.body.length) ∧
        receive old (ev.heap, fragOf m n o k ev) = some msg := by
  have hkept : ∀ s : HsState, (dtls13MsgWasProcessed env s).rxMsgList = s.rxMsgList := by
    intro s
    unfold dtls13MsgWasProcessed
    split
    · rfl
    · rfl
  unfold takeFragment at h
  split at h
  · split at h
    · obtain ⟨s, hs, rfl⟩ := Option.map_eq_some_iff.mp h
      exact mem_store hs (mem_handOn hmsg)
    · obtain rfl := Option.some.inj h
      exact Or.inl hmsg
  · dsimp only at h
    split at h
    · obtain rfl := Option.some.inj h
      have := mem_handOn hmsg
      rw [hkept] at this
      exact Or.inl this
    · obtain rfl := Option.some.inj h
      exact Or.inl hmsg

end List

/-! ### The flight -/

/-- What is stored of the messages that come in fragments is made of the sender's
fragments. -/
def AllAligned (msgs : List HsMsg) (k : ℕ) (l : List DtlsMsg) : Prop :=
  ∀ msg ∈ l, ∀ m, msgs[msg.seq]? = some m → k < m.body.length → Aligned k m.body msg

section Flight

variable {msgs : List HsMsg} {n₀ k : ℕ} {evs : List HsRecord} {st st' : HsState} {env : Env} {m : HsMsg}
  {n o len : ℕ} {ev : HsRecord}

theorem sent_fragOf (hc : Carries m n o len ev)
    (hmem : (o, excerpt m.body o len) ∈ dtls13SendFragmentedInternal k m.body) :
    Sent ⟨n, m.epoch, m.type⟩ k m.body (fragOf m n o len ev) := by
  refine ⟨rfl, hc.epoch, rfl, rfl, ?_⟩
  simp only [fragOf]
  rw [data_of_carries hc]
  exact hmem

/-- A fragment leaves a message that it is of with the fragment's number. -/
theorem seq_of_receive {old msg : DtlsMsg} {heap : Heap} {f : Frag} (hs : Sane old) (ha : Accepts old f)
    (hid : old.ready = true → old.seq = f.seq) (h : receive old (heap, f) = some msg) : msg.seq = f.seq := by
  cases hr : old.ready with
  | true =>
    rw [receive_same (Or.inl hr) h]
    exact hid hr
  | false => exact (receive_populates hs hr ha h).1.2.2

theorem allAligned_takeFragment (hk : 0 < k) (hp : PeerOk msgs) (hinv : HsInv msgs n₀ st)
    (h : AllAligned msgs k st.rxMsgList) (hm : msgs[n]? = some m) (hsent : SentRecord k m n o len ev)
    {p : HsState × HsRet × ℕ} (ht : takeFragment env st ev (m.header n o len) = some p) :
    AllAligned msgs k p.1.rxMsgList := by
  have hf : (fragOf m n o len ev).Of ⟨n, m.epoch, m.type⟩ m.body := frag_of_carries hsent.1
  intro msg hmsg m' hm' hbig
  rcases mem_takeFragment ht hmsg with hold | ⟨old, hwhich, hrecv⟩
  · exact h msg hold m' hm' hbig
  · -- the message with the fragment, old or new
    obtain ⟨hx, hid, hal⟩ : Expects ⟨n, m.epoch, m.type⟩ m.body old ∧ (old.ready = true → old.seq = n) ∧
        (k < m.body.length → Aligned k m.body old) := by
      rcases hwhich with ⟨hmem, hseq⟩ | rfl
      · obtain ⟨m'', hm'', _, hx, _⟩ := hinv.list old hmem
        rw [hseq, hm] at hm''
        obtain rfl := Option.some.inj hm''
        rw [hseq] at hx
        exact ⟨hx, fun _ => hseq, h old hmem m (by rw [hseq]; exact hm)⟩
      · exact ⟨expects_new _ (hp.small m (List.mem_of_getElem? hm)), by simp [dtlsMsgNew],
          fun _ => by simp [Aligned, dtlsMsgNew]⟩
    have hseq : msg.seq = n := seq_of_receive hx.sane (accepts_of hx hf) hid hrecv
    rw [hseq, hm] at hm'
    obtain rfl := Option.some.inj hm'
    rcases sent_whole_or hk hsent with ⟨hle, _⟩ | ⟨_, _, hmem⟩
    · omega
    · exact aligned_receive hk hx.sane (hal hbig) (sent_fragOf hsent.1 hmem) hrecv

theorem le_expected (h : HsInv msgs n₀ st) : n₀ ≤ st.expectedPeerHandshakeNumber := by
  rw [h.due]
  exact Nat.le_add_right _ _

/-- A protected fragment is accepted. -/
theorem accepted_of_encrypted (hp : PeerOk msgs) (hinv : HsInv msgs n₀ st)
    (hkeys : ∀ n m, n₀ ≤ n → msgs[n]? = some m → m.encrypted = true) (hm : msgs[n]? = some m)
    (hc : Carries m n o len ev) (hv : ev.versionOk = true) : Accepted env st ev := by
  intro h hh hge
  obtain rfl := Option.some.inj ((header_of_steady hp hm hc hv).symm.trans hh)
  have henc : ev.encrypted = true := hc.encrypted.trans (hkeys n m ((le_expected hinv).trans hge) hm)
  right
  rw [dtls13AcceptFragmented, if_pos henc]

/-- Of at most four fragments none is stray, and there is room for each. -/
theorem clean_and_room (hk : 0 < k) (hp : PeerSteady msgs) (hfew : msgs.length < n₀ + POOL_SZ)
    (hfour : ∀ n m, n₀ ≤ n → msgs[n]? = some m → (dtls13HandshakeSend k m.body).length ≤ 4)
    (h : Exact msgs (splits msgs k) n₀ evs st) (hb : Bounded st) (hal : AllAligned msgs k st.rxMsgList)
    (hm : msgs[n]? = some m) (hsent : SentRecord k m n o len ev) (hok : ev.heap.ok = true ∧ ev.versionOk = true) :
    Clean st ev ∧ Room st ev := by
  have hhdr := header_of_steady hp.toPeerOk hm hsent.1 hok.2
  have hfit : ∀ msg ∈ st.rxMsgList, msg.seq = n →
      ¬Stray msg.fragBucketList o (o + len) ∧ msg.fragBucketListCount < FRAG_POOL_SZ := by
    intro msg hmsg hseq
    have hgood := h.good msg hmsg
    have hge : n₀ ≤ n := hseq ▸ (le_expected h.inv).trans (h.ahead msg.seq (seq_mem hmsg))
    obtain ⟨m', hm', _, hx, _⟩ := hgood.holds
    rw [hseq, hm] at hm'
    obtain rfl := Option.some.inj hm'
    rw [hseq] at hx
    rcases sent_whole_or hk hsent with ⟨hle, _⟩ | ⟨hbig, _, hmem⟩
    · -- a message that comes whole is complete at once
      have hready := hgood.ready (by
        rw [hseq]
        simp only [splits, hm, Option.any_some, decide_eq_false_iff_not]
        omega)
      obtain ⟨hnil, hcount⟩ := hx.sane.empty hready
      rw [hnil, hcount]
      exact ⟨by simp [Stray, InGap, CutsFront], by decide⟩
    · have hlen : m.body.length ≤ 4 * k := by
        have hle := hfour n m hge hm
        rw [dtls13HandshakeSend, if_neg (by omega)] at hle
        exact (length_send_le hk 4).mp hle
      obtain ⟨hroom, hstray⟩ := aligned_kept hk hlen hx (hal msg hmsg m (by rw [hseq]; exact hm) hbig) hok.1
        (sent_fragOf hsent.1 hmem)
      rw [NotStray, stop_fragOf hsent.1] at hstray
      exact ⟨hstray, hroom.2⟩
  refine ⟨?_, ?_, ?_⟩
  · intro hdr hh msg hmsg hseq
    obtain rfl := Option.some.inj (hhdr.symm.trans hh)
    exact (hfit msg hmsg hseq).1
  · -- the numbers are distinct and those of the flight
    have hnodup : (seqs st.rxMsgList).Nodup := h.sorted.imp fun h => Nat.ne_of_lt h
    have hsub : (seqs st.rxMsgList).toFinset ⊆ Finset.Ico n₀ msgs.length := by
      intro x hx
      have hge := h.ahead x (List.mem_toFinset.mp hx)
      obtain ⟨msg, hmsg, rfl⟩ := List.mem_map.mp (List.mem_toFinset.mp hx)
      obtain ⟨m', hm', _⟩ := h.inv.list msg hmsg
      exact Finset.mem_Ico.mpr ⟨(le_expected h.inv).trans hge, (List.getElem?_eq_some_iff.mp hm').1⟩
    have hcard := Finset.card_le_card hsub
    rw [List.toFinset_card_of_nodup hnodup, Nat.card_Ico, seqs, List.length_map] at hcard
    rw [hb.sz]
    simp only [POOL_SZ] at hfew ⊢
    omega
  · intro hdr hh msg hmsg hseq
    obtain rfl := Option.some.inj (hhdr.symm.trans hh)
    exact (hfit msg hmsg hseq).2

end Flight

/-- **A flight of messages of at most four fragments each is handed on whole and in
order, whatever the order it comes in.** The flight is what the peer sends from
message `n₀` on, all of it protected. What was handed on is the messages that have
come, up to the first that has not. -/
theorem flight_in_any_order (msgs : List HsMsg) (hp : PeerSteady msgs) (n₀ : ℕ) (hn : n₀ ≤ msgs.length)
    (hfew : msgs.length < n₀ + POOL_SZ) (hkeys : ∀ n m, n₀ ≤ n → msgs[n]? = some m → m.encrypted = true) (k : ℕ)
    (hk : 0 < k) (hfour : ∀ n m, n₀ ≤ n → msgs[n]? = some m → (dtls13HandshakeSend k m.body).length ≤ 4) (env : Env)
    (hw : Willing msgs n₀ env) (evs : List HsRecord)
    (hev : ∀ ev ∈ evs, (ev.heap.ok = true ∧ ev.versionOk = true) ∧
      ∃ n m o len, msgs[n]? = some m ∧ SentRecord k m n o len ev)
    (hcheck : Meets (hsStep env) (Checked env) { expectedPeerHandshakeNumber := n₀ } evs) :
    ∃ st, run (hsStep env) { expectedPeerHandshakeNumber := n₀ } evs = some st ∧
      (∀ i < st.calls.length,
        ∃ m c, msgs[n₀ + i]? = some m ∧ st.calls[i]? = some c ∧ c.type = m.type ∧ c.body = m.body) ∧
      ∀ n, n₀ ≤ n → (n < n₀ + st.calls.length ↔ ∀ j, n₀ ≤ j → j ≤ n → CameAll msgs evs j) := by
  obtain ⟨st, hrun, hexact, hwait, -⟩ := run_exists_of_history (hsStep env)
    (Q := fun ev => (ev.heap.ok = true ∧ ev.versionOk = true) ∧
      ∃ n m o len, msgs[n]? = some m ∧ SentRecord k m n o len ev)
    (I := fun evs st => Exact msgs (splits msgs k) n₀ evs st ∧ dtls13NextMessageComplete st = false ∧ Bounded st ∧
      AllAligned msgs k st.rxMsgList)
    (fun evs st ev ⟨hexact, hwait, hb, hal⟩ ⟨hok, n, m, o, len, hm, hsent⟩ hcheck => by
      obtain ⟨hclean, hroom⟩ := clean_and_room hk hp hfew hfour hexact hb hal hm hsent hok
      have hacc : Accepted env st ev := accepted_of_encrypted hp.toPeerOk hexact.inv hkeys hm hsent.1 hok.2
      obtain ⟨st', hst', hexact', hwait'⟩ := exact_recv (splits msgs k) hp hw hexact hwait
        (steady_of_sent hk hm hsent hok) hcheck hacc hclean hroom
      obtain ⟨u, hu, hb'⟩ := bounded_recv env hb ev
      obtain rfl : u = st' := Option.some.inj (hu.symm.trans hst')
      refine ⟨u, hst', hexact', hwait', hb', ?_⟩
      rw [recv_of_carries hw.verified hsent.1 (header_of_steady hp.toPeerOk hm hsent.1 hok.2) hcheck hacc] at hst'
      split at hst'
      · obtain rfl := Option.some.inj hst'
        exact hal
      · obtain ⟨p, hp', rfl⟩ := Option.map_eq_some_iff.mp hst'
        exact allAligned_takeFragment hk hp.toPeerOk hexact.inv.record hal hm hsent hp')
    evs (h := []) ⟨exact_init n₀ hn, rfl, ⟨by simp, rfl, by simp⟩, by simp [AllAligned]⟩ hev hcheck
  rw [List.nil_append] at hexact
  exact ⟨st, hrun, outcome_of_exact hexact hwait⟩

/-- Behind the ServerHello: the certificate in fragments of two bytes, the second
before the message the certificate follows, a repetition of the ServerHello, and the
second fragment once more. -/
def certificateRepeated : List HsRecord :=
  [recordOf ⟨CERTIFICATE, 2, true, [7, 8, 9]⟩ 2 2 1, recordOf ⟨ENCRYPTED_EXTENSIONS, 2, true, [5]⟩ 1 0 1,
    recordOf ⟨SERVER_HELLO, 0, false, [1, 2]⟩ 0 0 2, recordOf ⟨CERTIFICATE, 2, true, [7, 8, 9]⟩ 2 0 2,
    recordOf ⟨CERTIFICATE, 2, true, [7, 8, 9]⟩ 2 2 1]

theorem flight_in_any_order_repeated :
    ∃ st, run (hsStep Env.agreeing) { expectedPeerHandshakeNumber := 1 } certificateRepeated = some st ∧
      st.calls.length = 2 ∧ ∃ c, st.calls[1]? = some c ∧ c.type = CERTIFICATE ∧ c.body = [7, 8, 9] := by
  have hev : ∀ ev ∈ certificateRepeated, (ev.heap.ok = true ∧ ev.versionOk = true) ∧
      ∃ n m o len, serverFlight[n]? = some m ∧ SentRecord 2 m n o len ev := by
    intro ev hev
    simp only [certificateRepeated, List.mem_cons, List.not_mem_nil, or_false] at hev
    rcases hev with rfl | rfl | rfl | rfl | rfl
    · exact ⟨⟨rfl, rfl⟩, 2, _, 2, 1, rfl, carries_recordOf (by decide), by decide⟩
    · exact ⟨⟨rfl, rfl⟩, 1, _, 0, 1, rfl, carries_recordOf (by decide), by decide⟩
    · exact ⟨⟨rfl, rfl⟩, 0, _, 0, 2, rfl, carries_recordOf (by decide), by decide⟩
    · exact ⟨⟨rfl, rfl⟩, 2, _, 0, 2, rfl, carries_recordOf (by decide), by decide⟩
    · exact ⟨⟨rfl, rfl⟩, 2, _, 2, 1, rfl, carries_recordOf (by decide), by decide⟩
  have hflight : ∀ n m, 1 ≤ n → serverFlight[n]? = some m →
      m.encrypted = true ∧ (dtls13HandshakeSend 2 m.body).length ≤ 4 := by
    intro n m hge hm
    have hlt : n < 3 := (List.getElem?_eq_some_iff.mp hm).1
    interval_cases n <;> obtain rfl := Option.some.inj hm <;> decide
  obtain ⟨st, hrun, hcalls, -⟩ := flight_in_any_order serverFlight steady_serverFlight 1 (by decide) (by decide)
    (fun n m hge hm => (hflight n m hge hm).1) 2 (by decide) (fun n m hge hm => (hflight n m hge hm).2) Env.agreeing
    (willing_agreeing _ _) _ hev (by decide)
  have hlen : st.calls.length = 2 := by
    rw [← Option.some.inj hrun]
    decide
  obtain ⟨m, c, hm, hc, htype, hbody⟩ := hcalls 1 (by omega)
  obtain rfl : (⟨CERTIFICATE, 2, true, [7, 8, 9]⟩ : HsMsg) = m := Option.some.inj hm
  exact ⟨st, hrun, hlen, c, hc, htype, hbody⟩

end Reassembly
end PqcDtls
