/-
# The accept loop of the server (`server_dtls.c`)

One UDP socket serves one client after the other: peek a datagram, connect the
socket to its sender, let wolfSSL run the session on the socket, un-connect.
The loop is a system over the socket's queue. Datagrams arrive between any two
of its steps, and each call of the operating system and of wolfSSL may have any
outcome: inside a call wolfSSL reads from the socket as often as it likes,
through `EmbedReceiveFrom` of `wolfio.c`. Of the operating system the system
assumes that the queue is first in first out, that a peek removes nothing, and
that a connected socket turns away only what arrives from others afterwards.

`sessions_isolated_iff`: in every run, the sessions read only from their own
peers exactly when none reads as far as a datagram of another sender that was
queued already at its connect. Two clients at once are enough to break it:
`two_clients_mixed`.
-/
import PqcDtls.Lib.Run

namespace PqcDtls
namespace Server

open Lib

/-- `struct sockaddr_in` -/
structure Addr where
  sinAddr : UInt32
  sinPort : UInt16
  deriving DecidableEq

structure Datagram where
  sender : Addr
  data : List UInt8
  deriving DecidableEq

/-! ### wolfSSL's receive callback -/

/-- What `EmbedReceiveFrom` looks at: the peer of the DTLS context, and whether
the session is stateful. -/
structure DtlsCtx where
  peer : Option Addr
  dtlsStateful : Bool

/-- `wolfSSL_new` and `wolfSSL_set_fd`: no peer, not connected, none set by the user. -/
def DtlsCtx.new : DtlsCtx := ⟨none, false⟩

/-- The context after `recvfrom` has returned a datagram. An empty one is
ignored; a sender that is not the peer of a stateful session is an error. -/
def embedReceiveFrom (ctx : DtlsCtx) (d : Datagram) : DtlsCtx :=
  if d.data = [] then ctx
  else if ctx.peer = none ∨ ctx.dtlsStateful = false then { ctx with peer := some d.sender }
  else ctx

/-! ### The loop -/

/-- A session, from its connect on. -/
structure Session where
  /-- The sender of the datagram peeked, to which the socket is connected. -/
  peer : Addr
  /-- What was queued at the connect. -/
  waiting : List Datagram
  /-- What wolfSSL has read from the socket. -/
  reads : List Datagram
  ctx : DtlsCtx
  /-- The peers wolfSSL has had, to which it sends. -/
  peers : List Addr

def Session.connect (peer : Addr) (queue : List Datagram) : Session :=
  { peer, waiting := queue, reads := [], ctx := .new, peers := [] }

/-- wolfSSL reads a datagram. -/
def Session.recv (ses : Session) (d : Datagram) : Session :=
  { ses with
    reads := ses.reads ++ [d]
    ctx := embedReceiveFrom ses.ctx d
    peers := ses.peers ++ (embedReceiveFrom ses.ctx d).peer.toList }

/-- The wolfSSL calls of a session. -/
inductive SslCall where
  | accept
  | read
  | write
  | shutdown
  deriving DecidableEq

/-- The call after one that has returned. -/
def SslCall.next : SslCall → Bool → Option SslCall
  | .accept, true => some .read
  | .accept, false => some .shutdown
  | .read, _ => some .write
  | .write, _ => some .shutdown
  | .shutdown, _ => none

/-- Where the loop stands. -/
inductive Pc where
  | peek
  | connect (peer : Addr)
  | new (ses : Session)
  | call (c : SslCall) (ses : Session)
  | unconnect (ses : Session)
  /-- `wolfSSL_new` has failed: the loop is left. -/
  | exited

structure State where
  queue : List Datagram
  /-- The address the socket is connected to. -/
  connected : Option Addr
  pc : Pc
  /-- The sessions that are over. -/
  past : List Session

/-- The socket is bound. -/
def start : State := { queue := [], connected := none, pc := .peek, past := [] }

inductive Label where
  | arrive (d : Datagram)
  /-- `recvfrom` with `MSG_PEEK` returns, with a datagram or an error. -/
  | peek (ok : Bool)
  | connect (ok : Bool)
  | new (ok : Bool)
  /-- wolfSSL reads a datagram from the socket. -/
  | recv
  /-- The session becomes stateful. -/
  | stateful
  /-- The wolfSSL call returns, with success or without. -/
  | ret (ok : Bool)
  | unconnect

/-- One step of the loop, or an arrival. -/
def step (s : State) : Label → Option State
  | .arrive d =>
    if s.connected = none ∨ s.connected = some d.sender then some { s with queue := s.queue ++ [d] } else some s
  | .peek ok =>
    match s.pc, s.queue, ok with
    | .peek, d :: _, true => some { s with pc := .connect d.sender }
    | .peek, _, false => some s
    | _, _, _ => none
  | .connect ok =>
    match s.pc with
    | .connect peer =>
      if ok then some { s with connected := some peer, pc := .new (.connect peer s.queue) }
      else some { s with pc := .peek }
    | _ => none
  | .new ok =>
    match s.pc with
    | .new ses => some { s with pc := if ok then .call .accept ses else .exited }
    | _ => none
  | .recv =>
    match s.pc, s.queue with
    | .call c ses, d :: ds => some { s with queue := ds, pc := .call c (ses.recv d) }
    | _, _ => none
  | .stateful =>
    match s.pc with
    | .call c ses => some { s with pc := .call c { ses with ctx := { ses.ctx with dtlsStateful := true } } }
    | _ => none
  | .ret ok =>
    match s.pc with
    | .call c ses =>
      match c.next ok with
      | some c' => some { s with pc := .call c' ses }
      | none => some { s with pc := .unconnect ses }
    | _ => none
  | .unconnect =>
    match s.pc with
    | .unconnect ses => some { s with connected := none, pc := .peek, past := s.past ++ [ses] }
    | _ => none

/-- The session under way. -/
def Pc.session : Pc → Option Session
  | .new ses => some ses
  | .call _ ses => some ses
  | .unconnect ses => some ses
  | _ => none

def State.sessions (s : State) : List Session := s.past ++ s.pc.session.toList

/-- A session reads from its peer only, and talks to it only. -/
def Session.Isolated (ses : Session) : Prop :=
  (∀ d ∈ ses.reads, d.sender = ses.peer) ∧ ∀ a ∈ ses.peers, a = ses.peer

/-- Of the datagrams queued at its connect, a session reads none that another
sender sent: as many as it has read at all, from the front, come from its peer. -/
def Session.Unmixed (ses : Session) : Prop := ∀ d ∈ ses.waiting.take ses.reads.length, d.sender = ses.peer

instance (ses : Session) : Decidable ses.Unmixed := inferInstanceAs (Decidable (∀ _ ∈ _, _))

/-! ### What a session can read -/

/-- What a session has read and what is still queued is what was queued at its
connect, and behind that datagrams of its peer. -/
structure Session.Filtered (ses : Session) (queue : List Datagram) : Prop where
  split : ∃ later, (∀ d ∈ later, d.sender = ses.peer) ∧ ses.waiting ++ later = ses.reads ++ queue
  /-- wolfSSL's peers are senders of what it has read. -/
  peers : ∀ a ∈ ses.ctx.peer.toList ++ ses.peers, ∃ d ∈ ses.reads, d.sender = a

theorem filtered_connect (peer : Addr) (queue : List Datagram) :
    (Session.connect peer queue).Filtered queue :=
  ⟨⟨[], by simp, by simp [Session.connect]⟩, by simp [Session.connect, DtlsCtx.new]⟩

theorem Session.Filtered.arrive {ses : Session} {queue : List Datagram} (h : ses.Filtered queue)
    {d : Datagram} (hd : d.sender = ses.peer) : ses.Filtered (queue ++ [d]) := by
  obtain ⟨later, hlater, hsplit⟩ := h.split
  refine ⟨⟨later ++ [d], ?_, ?_⟩, h.peers⟩
  · intro x hx
    rcases List.mem_append.mp hx with hx | hx
    · exact hlater x hx
    · rw [List.mem_singleton.mp hx]
      exact hd
  · rw [← List.append_assoc, hsplit, List.append_assoc]

theorem embedReceiveFrom_peer (ctx : DtlsCtx) (d : Datagram) :
    (embedReceiveFrom ctx d).peer = ctx.peer ∨ (embedReceiveFrom ctx d).peer = some d.sender := by
  unfold embedReceiveFrom
  split_ifs
  · exact Or.inl rfl
  · exact Or.inr rfl
  · exact Or.inl rfl

theorem Session.Filtered.recv {ses : Session} {d : Datagram} {ds : List Datagram}
    (h : ses.Filtered (d :: ds)) : (ses.recv d).Filtered ds := by
  obtain ⟨later, hlater, hsplit⟩ := h.split
  refine ⟨⟨later, hlater, ?_⟩, ?_⟩
  · show ses.waiting ++ later = (ses.reads ++ [d]) ++ ds
    rw [hsplit, List.append_assoc]
    rfl
  · -- a peer adopted now is the sender just read
    have hold : ∀ a ∈ ses.ctx.peer.toList ++ ses.peers, ∃ x ∈ ses.reads ++ [d], x.sender = a := by
      intro a ha
      obtain ⟨x, hx, hxa⟩ := h.peers a ha
      exact ⟨x, List.mem_append_left _ hx, hxa⟩
    have hnew : ∀ a ∈ (embedReceiveFrom ses.ctx d).peer.toList, ∃ x ∈ ses.reads ++ [d], x.sender = a := by
      intro a ha
      rcases embedReceiveFrom_peer ses.ctx d with hp | hp
      · exact hold a (List.mem_append_left _ (by rwa [hp] at ha))
      · rw [hp, Option.toList_some, List.mem_singleton] at ha
        exact ⟨d, by simp, ha.symm⟩
    intro a ha
    simp only [Session.recv, List.mem_append] at ha
    rcases ha with ha | ha | ha
    · exact hnew a ha
    · exact hold a (List.mem_append_right _ ha)
    · exact hnew a ha

/-- **A session is isolated exactly when it is unmixed.** What it reads beyond
the datagrams queued at its connect is its peer's. -/
theorem Session.Filtered.isolated_iff {ses : Session} {queue : List Datagram} (h : ses.Filtered queue) :
    ses.Isolated ↔ ses.Unmixed := by
  obtain ⟨later, hlater, hsplit⟩ := h.split
  have hreads : ses.reads = ses.waiting.take ses.reads.length ++
      later.take (ses.reads.length - ses.waiting.length) := by
    have := congrArg (List.take ses.reads.length) hsplit
    rw [List.take_left, List.take_append] at this
    exact this.symm
  constructor
  · rintro ⟨hiso, -⟩ d hd
    apply hiso
    rw [hreads]
    exact List.mem_append_left _ hd
  · intro hun
    have hiso : ∀ d ∈ ses.reads, d.sender = ses.peer := by
      intro d hd
      rw [hreads] at hd
      rcases List.mem_append.mp hd with hd | hd
      · exact hun d hd
      · exact hlater d (List.mem_of_mem_take hd)
    refine ⟨hiso, fun a ha => ?_⟩
    obtain ⟨d, hd, rfl⟩ := h.peers a (List.mem_append_right _ ha)
    exact hiso d hd

/-! ### The run -/

/-- What a step can do, case by case. -/
inductive Moves (s : State) : Label → State → Prop where
  | arrive (d : Datagram) (hfrom : s.connected = none ∨ s.connected = some d.sender) :
    Moves s (.arrive d) { s with queue := s.queue ++ [d] }
  | turnedAway (d : Datagram) : Moves s (.arrive d) s
  | peek (d : Datagram) (ds : List Datagram) (hpc : s.pc = .peek) (hqueue : s.queue = d :: ds) :
    Moves s (.peek true) { s with pc := .connect d.sender }
  | peekFails : Moves s (.peek false) s
  | connect (peer : Addr) (hpc : s.pc = .connect peer) :
    Moves s (.connect true) { s with connected := some peer, pc := .new (.connect peer s.queue) }
  | connectFails (peer : Addr) (hpc : s.pc = .connect peer) : Moves s (.connect false) { s with pc := .peek }
  | new (ses : Session) (hpc : s.pc = .new ses) : Moves s (.new true) { s with pc := .call .accept ses }
  | newFails (ses : Session) (hpc : s.pc = .new ses) : Moves s (.new false) { s with pc := .exited }
  | recv (c : SslCall) (ses : Session) (d : Datagram) (ds : List Datagram) (hpc : s.pc = .call c ses)
    (hqueue : s.queue = d :: ds) : Moves s .recv { s with queue := ds, pc := .call c (ses.recv d) }
  | stateful (c : SslCall) (ses : Session) (hpc : s.pc = .call c ses) :
    Moves s .stateful { s with pc := .call c { ses with ctx := { ses.ctx with dtlsStateful := true } } }
  | ret (c c' : SslCall) (ses : Session) (ok : Bool) (hpc : s.pc = .call c ses) (hnext : c.next ok = some c') :
    Moves s (.ret ok) { s with pc := .call c' ses }
  | retLast (c : SslCall) (ses : Session) (ok : Bool) (hpc : s.pc = .call c ses) (hnext : c.next ok = none) :
    Moves s (.ret ok) { s with pc := .unconnect ses }
  | unconnect (ses : Session) (hpc : s.pc = .unconnect ses) :
    Moves s .unconnect { s with connected := none, pc := .peek, past := s.past ++ [ses] }

theorem step_moves {s t : State} {l : Label} (hs : step s l = some t) : Moves s l t := by
  unfold step at hs
  cases l with
  | arrive d =>
    dsimp only at hs
    split_ifs at hs with hfrom
    · obtain rfl := Option.some.inj hs
      exact .arrive d hfrom
    · obtain rfl := Option.some.inj hs
      exact .turnedAway d
  | peek ok =>
    dsimp only at hs
    split at hs
    · rename_i d ds hpc hqueue
      obtain rfl := Option.some.inj hs
      exact .peek d ds hpc hqueue
    · obtain rfl := Option.some.inj hs
      exact .peekFails
    · cases hs
  | connect ok =>
    dsimp only at hs
    split at hs
    · rename_i peer hpc
      cases ok with
      | true =>
        obtain rfl := Option.some.inj hs
        exact .connect peer hpc
      | false =>
        obtain rfl := Option.some.inj hs
        exact .connectFails peer hpc
    · cases hs
  | new ok =>
    dsimp only at hs
    split at hs
    · rename_i ses hpc
      obtain rfl := Option.some.inj hs
      cases ok with
      | true => exact .new ses hpc
      | false => exact .newFails ses hpc
    · cases hs
  | recv =>
    dsimp only at hs
    split at hs
    · rename_i c ses d ds hpc hqueue
      obtain rfl := Option.some.inj hs
      exact .recv c ses d ds hpc hqueue
    · cases hs
  | stateful =>
    dsimp only at hs
    split at hs
    · rename_i c ses hpc
      obtain rfl := Option.some.inj hs
      exact .stateful c ses hpc
    · cases hs
  | ret ok =>
    dsimp only at hs
    split at hs
    · rename_i c ses hpc
      split at hs
      · rename_i c' hnext
        obtain rfl := Option.some.inj hs
        exact .ret c c' ses ok hpc hnext
      · rename_i hnext
        obtain rfl := Option.some.inj hs
        exact .retLast c ses ok hpc hnext
    · cases hs
  | unconnect =>
    dsimp only at hs
    split at hs
    · rename_i ses hpc
      obtain rfl := Option.some.inj hs
      exact .unconnect ses hpc
    · cases hs

structure Inv (s : State) : Prop where
  past : ∀ ses ∈ s.past, ∃ queue, ses.Filtered queue
  now : ∀ ses, s.pc.session = some ses → s.connected = some ses.peer ∧ ses.Filtered s.queue

theorem start_inv : Inv start := ⟨by simp [start], by simp [start, Pc.session]⟩

/-- A step that only moves on, with the same session or none. -/
theorem Inv.move {s : State} (h : Inv s) {pc : Pc} (hpc : ∀ ses, pc.session = some ses → s.pc.session = some ses) :
    Inv { s with pc := pc } := ⟨h.past, fun ses hses => h.now ses (hpc ses hses)⟩

/-- An arrival: a connected socket takes it only from the session's peer. -/
theorem Inv.arrive {s : State} (h : Inv s) {d : Datagram}
    (hfrom : s.connected = none ∨ s.connected = some d.sender) : Inv { s with queue := s.queue ++ [d] } := by
  refine ⟨h.past, fun ses hses => ?_⟩
  obtain ⟨hconn, hfil⟩ := h.now ses hses
  refine ⟨hconn, hfil.arrive ?_⟩
  rw [hconn] at hfrom
  rcases hfrom with hfrom | hfrom
  · cases hfrom
  · exact (Option.some.inj hfrom).symm

/-- A step inside a call of the session, to another state of it. -/
theorem Inv.inside {s : State} (h : Inv s) {queue : List Datagram} {c : SslCall} {ses : Session}
    (hses : s.connected = some ses.peer ∧ ses.Filtered queue) : Inv { s with queue := queue, pc := .call c ses } := by
  refine ⟨h.past, fun ses' hses' => ?_⟩
  obtain rfl := Option.some.inj hses'
  exact hses

theorem step_inv {s t : State} {l : Label} (h : Inv s) (hs : step s l = some t) : Inv t := by
  cases step_moves hs with
  | arrive d hfrom => exact h.arrive hfrom
  | turnedAway d => exact h
  | peek d ds hpc hqueue => exact h.move (by simp [Pc.session])
  | peekFails => exact h
  | connect peer hpc =>
    refine ⟨h.past, fun ses hses => ?_⟩
    obtain rfl := Option.some.inj hses
    exact ⟨rfl, filtered_connect _ _⟩
  | connectFails peer hpc => exact h.move (by simp [Pc.session])
  | new ses hpc => exact h.move (by rw [hpc]; exact fun _ h => h)
  | newFails ses hpc => exact h.move (by simp [Pc.session])
  | recv c ses d ds hpc hqueue =>
    obtain ⟨hconn, hfil⟩ := h.now ses (by rw [hpc]; rfl)
    rw [hqueue] at hfil
    exact h.inside ⟨hconn, hfil.recv⟩
  | stateful c ses hpc =>
    obtain ⟨hconn, hfil⟩ := h.now ses (by rw [hpc]; rfl)
    exact h.inside ⟨hconn, hfil.split, hfil.peers⟩
  | ret c c' ses ok hpc hnext => exact h.move (by rw [hpc]; exact fun _ h => h)
  | retLast c ses ok hpc hnext => exact h.move (by rw [hpc]; exact fun _ h => h)
  | unconnect ses hpc =>
    refine ⟨fun ses' hses' => ?_, by simp [Pc.session]⟩
    rcases List.mem_append.mp hses' with hses' | hses'
    · exact h.past ses' hses'
    · rw [List.mem_singleton.mp hses']
      exact ⟨s.queue, (h.now ses (by rw [hpc]; rfl)).2⟩

/-- **When the sessions are isolated.** In every run, whatever arrives and
whatever the calls do: every session reads only datagrams of the peer it was
connected to, and talks only to that peer, exactly when no session reads as far
as a datagram of another sender that was queued at its connect. -/
theorem sessions_isolated_iff (sched : List Label) (s : State) (hrun : run step start sched = some s) :
    (∀ ses ∈ s.sessions, ses.Isolated) ↔ ∀ ses ∈ s.sessions, ses.Unmixed := by
  have hinv : Inv s := run_invariant step (fun _ _ _ h hs => step_inv h hs) start_inv hrun
  have hall : ∀ ses ∈ s.sessions, ses.Isolated ↔ ses.Unmixed := by
    intro ses hses
    rcases List.mem_append.mp hses with hses | hses
    · obtain ⟨queue, hfil⟩ := hinv.past ses hses
      exact hfil.isolated_iff
    · rw [Option.mem_toList] at hses
      exact (hinv.now ses hses).2.isolated_iff
  exact forall₂_congr hall

/-- The first record of a ClientHello, from `192.168.1.50:5555` and from another client. -/
def helloA : Datagram := ⟨⟨0xc0a80132, 5555⟩, [22, 254, 253]⟩
def helloB : Datagram := ⟨⟨0xc0a80133, 5555⟩, [22, 254, 253]⟩

/-- One client, whose second datagram comes during its session, and a second
one that is turned away while the first is served. -/
def oneClient : List Label :=
  [.arrive helloA, .peek true, .connect true, .new true, .recv, .arrive helloB, .arrive helloA, .recv,
    .stateful, .ret true, .ret true, .ret true, .ret true, .unconnect]

theorem sessions_isolated_oneClient : ∃ s, run step start oneClient = some s ∧ s.past.length = 1 ∧
    ∀ ses ∈ s.sessions, ses.Isolated := by
  have hmap : (run step start oneClient).map
      (fun s => (s.past.length, decide (∀ ses ∈ s.sessions, ses.Unmixed))) = some (1, true) := by decide
  obtain ⟨s, hs, hout⟩ := Option.map_eq_some_iff.mp hmap
  rw [Prod.mk.injEq, decide_eq_true_iff] at hout
  exact ⟨s, hs, hout.1, (sessions_isolated_iff oneClient s hs).mpr hout.2⟩

/-- **Two clients at once are mixed.** Both have sent their first datagram when
the loop connects to the first; the session reads both, and takes the second
client for its peer. -/
theorem two_clients_mixed :
    ¬ ∀ (sched : List Label) (s : State), run step start sched = some s → ∀ ses ∈ s.sessions, ses.Isolated := by
  intro hall
  have hmap : (run step start [.arrive helloA, .arrive helloB, .peek true, .connect true, .new true, .recv,
      .recv]).map (fun s => s.sessions.map fun ses => (ses.peer, ses.reads, ses.ctx.peer)) =
      some [(helloA.sender, [helloA, helloB], some helloB.sender)] := by decide
  obtain ⟨s, hs, hout⟩ := Option.map_eq_some_iff.mp hmap
  obtain ⟨ses, hses, hmix⟩ := List.mem_map.mp (by rw [hout]; exact List.mem_singleton.mpr rfl)
  simp only [Prod.mk.injEq] at hmix
  have hfrom := (hall _ s hs ses hses).1 helloB (by rw [hmix.2.1]; simp)
  rw [hmix.1] at hfrom
  exact absurd hfrom (by decide)

end Server
end PqcDtls
