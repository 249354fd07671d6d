/-
# Progress of the accept loop (`server_dtls.c`)

The loop of `Server` learns the client by a peek, which removes nothing, and
leaves it to wolfSSL to take the datagram off the queue. Here the loop counts
what each of its iterations removes. Assumed of wolfSSL is that `wolfSSL_accept`
reads a datagram before it returns, unless none is queued.

`loop_progress_iff`: from every state the loop reaches, whatever arrives and
whatever the calls return, the iterations all remove a datagram, and when
nothing arrives any more the loop goes on until it blocks on an empty queue,
exactly when no connect fails. A peer to which the socket cannot be connected stalls the loop: its
datagram stays at the head of the queue (`connect_stalls`).
-/
import PqcDtls.Server

namespace PqcDtls
namespace Progress

open Lib
open Server (State Label Pc Session SslCall Datagram helloA helloB)

/-- The loop, with a count of what it takes off the queue. -/
structure Loop where
  now : State
  /-- The datagrams removed since the loop was at its top. -/
  taken : ℕ
  /-- What each iteration removed that got past the peek and is back at the top. -/
  done : List ℕ

def Loop.start : Loop := ⟨Server.start, 0, []⟩

/-- The counts after a step to `now`. The two ways back to the top from past the
peek are the `continue` after a failed connect and the end of the loop's body. -/
def Loop.count (l : Loop) (now : State) : Label → Loop
  | .recv => { l with now, taken := l.taken + 1 }
  | .connect false => ⟨now, 0, l.done ++ [l.taken]⟩
  | .unconnect => ⟨now, 0, l.done ++ [l.taken]⟩
  | _ => { l with now }

def Loop.step (l : Loop) (a : Label) : Option Loop := (Server.step l.now a).map fun now => l.count now a

/-- Inside `wolfSSL_accept`, with nothing read yet. -/
def unread : Pc → Bool
  | .call .accept ses => ses.reads.isEmpty
  | _ => false

def isRet : Label → Bool
  | .ret _ => true
  | _ => false

/-- `wolfSSL_accept` reads a datagram before it returns, unless none is queued. -/
def AcceptReads (l : Loop) (a : Label) : Prop := isRet a = true → unread l.now.pc = true → l.now.queue = []

instance (l : Loop) (a : Label) : Decidable (AcceptReads l a) := inferInstanceAs (Decidable (_ → _ → _))

/-- A schedule takes the loop from `s` to `t`, and `wolfSSL_accept` behaves. -/
def Runs (s : Loop) (sched : List Label) (t : Loop) : Prop :=
  Meets Loop.step AcceptReads s sched ∧ run Loop.step s sched = some t

/-- `recvfrom` waits at the top of the loop: nothing is queued. -/
def Loop.Blocked (l : Loop) : Prop := l.now.pc = .peek ∧ l.now.queue = []

/-- The steps with which the loop gets further: no arrival, no error of a call
before the session, no change inside a wolfSSL call. -/
def isForward : Label → Bool
  | .peek ok | .connect ok | .new ok => ok
  | .recv | .ret _ | .unconnect => true
  | .arrive _ | .stateful => false

/-- The loop has a step forward: at its top it can peek what is queued. -/
def Loop.GoesOn (l : Loop) : Prop := ∃ a l', isForward a = true ∧ AcceptReads l a ∧ l.step a = some l'

/-- No client blocks the server on the way from `s` to `t`: every iteration that
came back to the top has removed a datagram, and unless it has been left the
loop goes on or blocks on an empty queue. And if nothing arrives, the steps
forward are bounded by the queue, and the iterations and the queue share the
datagrams that were queued, or taken by the iteration under way: there are no
more iterations than these, and once they have removed them all the loop blocks. -/
def Progresses (s : Loop) (more : List Label) (t : Loop) : Prop :=
  ∃ new, t.done = s.done ++ new ∧ (∀ n ∈ new, 0 < n) ∧
    (t.now.pc = .exited ∨ t.GoesOn ∨ t.Blocked) ∧
    ((∀ d, .arrive d ∉ more) →
      more.countP isForward ≤ 9 * s.now.queue.length + 5 ∧
      new.sum + t.taken + t.now.queue.length = s.taken + s.now.queue.length ∧
      new.length + t.now.queue.length ≤ s.taken + s.now.queue.length ∧
      (new.sum = s.taken + s.now.queue.length → t.Blocked))

/-! ### A step -/

/-- What the count and the queue are where the loop stands: from the peek until
wolfSSL reads, the peeked datagram is queued. -/
def Counted : Pc → ℕ → List Datagram → Prop
  | .peek, taken, _ => taken = 0
  | .connect _, taken, queue => taken = 0 ∧ queue ≠ []
  | .new ses, taken, queue => ses.reads.length = taken ∧ taken = 0 ∧ queue ≠ []
  | .call .accept ses, taken, queue => ses.reads.length = taken ∧ (taken = 0 → queue ≠ [])
  | .call _ _, taken, _ => 0 < taken
  | .unconnect _, taken, _ => 0 < taken
  | .exited, _, queue => queue ≠ []

def Loop.Inv (l : Loop) : Prop := Counted l.now.pc l.taken l.now.queue

/-- What the loop has removed, and what is left. -/
def Loop.total (l : Loop) : ℕ := l.done.sum + l.taken + l.now.queue.length

/-- What one step does: an iteration that ends has removed something unless its
connect failed, and only an arrival changes the total. -/
structure Stepped (l : Loop) (a : Label) (l' : Loop) : Prop where
  inv : l'.Inv
  done : ∃ new, l'.done = l.done ++ new ∧ ((∀ n ∈ new, 0 < n) ↔ a ≠ .connect false)
  total : (∀ d, a ≠ .arrive d) → l'.total = l.total

theorem Counted.arrive {pc : Pc} {taken : ℕ} {queue : List Datagram} (h : Counted pc taken queue) (d : Datagram) :
    Counted pc taken (queue ++ [d]) := by
  cases pc with
  | peek => exact h
  | connect peer => exact ⟨h.1, by simp⟩
  | new ses => exact ⟨h.1, h.2.1, by simp⟩
  | call c ses =>
    cases c with
    | accept => exact ⟨h.1, by simp⟩
    | read => exact h
    | write => exact h
    | shutdown => exact h
  | unconnect ses => exact h
  | exited => simp [Counted]

/-- A step after which no iteration is over and nothing is removed. -/
theorem Stepped.move {l : Loop} {a : Label} {s : State} (hinv : Counted s.pc l.taken s.queue)
    (ha : a ≠ .connect false) (hqueue : (∀ d, a ≠ .arrive d) → s.queue = l.now.queue) :
    Stepped l a { l with now := s } := by
  refine ⟨hinv, ⟨[], by simp, by simp [ha]⟩, fun harr => ?_⟩
  simp only [Loop.total, hqueue harr]

/-- An iteration is over. -/
theorem Stepped.back {l : Loop} {a : Label} {s : State} (hpc : s.pc = .peek) (hqueue : s.queue = l.now.queue)
    (ha : 0 < l.taken ↔ a ≠ .connect false) : Stepped l a ⟨s, 0, l.done ++ [l.taken]⟩ := by
  refine ⟨?_, ⟨[l.taken], rfl, by simpa using ha⟩, fun _ => ?_⟩
  · show Counted s.pc 0 s.queue
    rw [hpc]
    rfl
  · simp [Loop.total, hqueue]

theorem Counted.recv {c : SslCall} {ses : Session} {taken : ℕ} {d : Datagram} {ds : List Datagram}
    (h : Counted (.call c ses) taken (d :: ds)) : Counted (.call c (ses.recv d)) (taken + 1) ds := by
  cases c with
  | accept => exact ⟨by simp [Session.recv, h.1], by simp⟩
  | read => exact Nat.succ_pos taken
  | write => exact Nat.succ_pos taken
  | shutdown => exact Nat.succ_pos taken

/-- A call that returns has left something read: `wolfSSL_accept` because the
datagram peeked was still queued. -/
theorem Counted.pos {c : SslCall} {ses : Session} {taken : ℕ} {queue : List Datagram}
    (h : Counted (.call c ses) taken queue) (hreads : unread (.call c ses) = true → queue = []) : 0 < taken := by
  cases c with
  | accept =>
    by_contra hzero
    have htaken : taken = 0 := by omega
    have hnil : ses.reads = [] := List.eq_nil_of_length_eq_zero (h.1.trans htaken)
    exact h.2 htaken (hreads (by simp [unread, hnil]))
  | read => exact h
  | write => exact h
  | shutdown => exact h

/-- No call is followed by `wolfSSL_accept`. -/
theorem Counted.next {c c' : SslCall} {ok : Bool} (hnext : c.next ok = some c') (ses : Session) {taken : ℕ}
    (hpos : 0 < taken) (queue : List Datagram) : Counted (.call c' ses) taken queue := by
  cases c' with
  | accept => cases c <;> cases ok <;> cases hnext
  | read => exact hpos
  | write => exact hpos
  | shutdown => exact hpos

theorem step_stepped {l l' : Loop} {a : Label} (h : l.Inv) (hreads : AcceptReads l a)
    (hstep : l.step a = some l') : Stepped l a l' := by
  obtain ⟨s, hs, rfl⟩ := Option.map_eq_some_iff.mp hstep
  unfold Loop.Inv at h
  cases Server.step_moves hs with
  | arrive d hfrom => exact .move (h.arrive d) (by simp) fun harr => absurd rfl (harr d)
  | turnedAway d => exact .move h (by simp) fun _ => rfl
  | peek d ds hpc hqueue =>
    rw [hpc] at h
    exact .move ⟨h, by simp [hqueue]⟩ (by simp) fun _ => rfl
  | peekFails => exact .move h (by simp) fun _ => rfl
  | connect peer hpc =>
    rw [hpc] at h
    exact .move ⟨h.1.symm, h⟩ (by simp) fun _ => rfl
  | connectFails peer hpc =>
    -- the datagram peeked is left where it is
    rw [hpc] at h
    exact .back rfl rfl (by simp [h.1])
  | new ses hpc =>
    rw [hpc] at h
    exact .move ⟨h.1, fun _ => h.2.2⟩ (by simp) fun _ => rfl
  | newFails ses hpc =>
    rw [hpc] at h
    exact .move h.2.2 (by simp) fun _ => rfl
  | recv c ses d ds hpc hqueue =>
    rw [hpc, hqueue] at h
    refine ⟨h.recv, ⟨[], by simp [Loop.count], by simp⟩, fun _ => ?_⟩
    simp only [Loop.total, Loop.count, hqueue, List.length_cons]
    omega
  | stateful c ses hpc =>
    rw [hpc] at h
    exact .move (by cases c <;> exact h) (by simp) fun _ => rfl
  | ret c c' ses ok hpc hnext =>
    have hread := hreads rfl
    rw [hpc] at h hread
    exact .move (.next hnext ses (h.pos hread) _) (by simp) fun _ => rfl
  | retLast c ses ok hpc hnext =>
    have hread := hreads rfl
    rw [hpc] at h hread
    exact .move (h.pos hread) (by simp) fun _ => rfl
  | unconnect ses hpc =>
    rw [hpc] at h
    exact .back rfl rfl ⟨by simp, fun _ => h⟩

/-! ### A run -/

theorem runs_cons {s t : Loop} {a : Label} {as : List Label} :
    Runs s (a :: as) t ↔ ∃ u, AcceptReads s a ∧ s.step a = some u ∧ Runs u as t := by
  constructor
  · rintro ⟨hmeets, hrun⟩
    obtain ⟨u, hu, ht⟩ := (run_cons Loop.step).mp hrun
    exact ⟨u, hmeets.1, hu, hmeets.2 u hu, ht⟩
  · rintro ⟨u, hreads, hu, hmeets, hrun⟩
    refine ⟨⟨hreads, fun v hv => ?_⟩, (run_cons Loop.step).mpr ⟨u, hu, hrun⟩⟩
    obtain rfl : u = v := Option.some.inj (hu.symm.trans hv)
    exact hmeets

theorem runs_inv {s t : Loop} {sched : List Label} (h : s.Inv) (hr : Runs s sched t) : t.Inv :=
  run_invariant_of_meets Loop.step (fun _ _ _ hinv hreads hstep => (step_stepped hinv hreads hstep).inv)
    s sched t h hr.1 hr.2

/-- The iterations that end along a run all remove something unless a connect fails. -/
theorem runs_done {s t : Loop} {more : List Label} (h : s.Inv) (hr : Runs s more t) :
    ∃ new, t.done = s.done ++ new ∧ ((∀ n ∈ new, 0 < n) ↔ Label.connect false ∉ more) := by
  induction more generalizing s with
  | nil =>
    obtain rfl := Option.some.inj hr.2
    exact ⟨[], by simp, by simp⟩
  | cons a as ih =>
    obtain ⟨u, hreads, hu, ht⟩ := runs_cons.mp hr
    have hstep := step_stepped h hreads hu
    obtain ⟨first, hfirst, hpos⟩ := hstep.done
    obtain ⟨rest, hrest, hposs⟩ := ih hstep.inv ht
    refine ⟨first ++ rest, ?_, ?_⟩
    · rw [hrest, hfirst, List.append_assoc]
    · rw [List.forall_mem_append, hpos, hposs, List.mem_cons, not_or, ne_comm]

/-- What is removed along a run without arrivals is missing from the queue. -/
theorem runs_total {s t : Loop} {more : List Label} (h : s.Inv) (hr : Runs s more t)
    (harr : ∀ d, Label.arrive d ∉ more) : t.total = s.total := by
  induction more generalizing s with
  | nil =>
    obtain rfl := Option.some.inj hr.2
    rfl
  | cons a as ih =>
    obtain ⟨u, hreads, hu, ht⟩ := runs_cons.mp hr
    have hstep := step_stepped h hreads hu
    calc t.total = u.total := ih hstep.inv ht fun d hd => harr d (List.mem_cons_of_mem _ hd)
      _ = s.total := hstep.total fun d hd => harr d (hd ▸ List.mem_cons_self)

/-- The steps forward of an iteration from a wolfSSL call on, the reads left out. -/
def fromCall : SslCall → ℕ
  | .accept => 5
  | .read => 4
  | .write => 3
  | .shutdown => 2

theorem fromCall_le (c : SslCall) : fromCall c ≤ 5 := by cases c <;> decide

theorem fromCall_next {c c' : SslCall} {ok : Bool} (hnext : c.next ok = some c') : fromCall c' < fromCall c := by
  cases c <;> cases ok <;> cases hnext <;> decide

/-- A bound on the steps forward that are left without arrivals: nine for each
datagram queued, which the first read of an iteration has to pay for. -/
def Loop.left (l : Loop) : ℕ :=
  match l.now.pc with
  | .peek => 9 * l.now.queue.length
  | .connect _ => 9 * l.now.queue.length - 1
  | .new _ => 9 * l.now.queue.length - 2
  | .call c ses =>
    if unread (.call c ses) then 9 * l.now.queue.length - 3 else 9 * l.now.queue.length + fromCall c
  | .unconnect _ => 9 * l.now.queue.length + 1
  | .exited => 0

theorem Loop.left_le (l : Loop) : l.left ≤ 9 * l.now.queue.length + 5 := by
  unfold Loop.left
  split <;> try omega
  rename_i c ses hpc
  have := fromCall_le c
  split_ifs <;> omega

/-- What is removed has been read. -/
theorem Counted.unread_eq {c : SslCall} {ses : Session} {taken : ℕ} {queue : List Datagram}
    (h : Counted (.call c ses) taken queue) (hpos : 0 < taken) : unread (.call c ses) = false := by
  cases c with
  | accept =>
    have hne : ses.reads ≠ [] := List.length_pos_iff.mp (h.1.symm ▸ hpos)
    simpa [unread] using hne
  | read => rfl
  | write => rfl
  | shutdown => rfl

/-- Every step forward is paid for, if nothing arrives and no connect fails. -/
theorem step_left {l l' : Loop} {a : Label} (h : l.Inv) (hreads : AcceptReads l a) (hstep : l.step a = some l')
    (hconn : a ≠ .connect false) (harr : ∀ d, a ≠ .arrive d) : l'.left + (isForward a).toNat ≤ l.left := by
  obtain ⟨s, hs, rfl⟩ := Option.map_eq_some_iff.mp hstep
  unfold Loop.Inv at h
  cases Server.step_moves hs with
  | arrive d hfrom => exact absurd rfl (harr d)
  | turnedAway d => exact absurd rfl (harr d)
  | peek d ds hpc hqueue =>
    simp only [Loop.left, Loop.count, isForward, hpc, hqueue, List.length_cons, Bool.toNat_true]
    omega
  | peekFails => exact le_refl _
  | connect peer hpc =>
    rw [hpc] at h
    have hqueue := List.length_pos_iff.mpr h.2
    simp only [Loop.left, Loop.count, isForward, hpc, Bool.toNat_true]
    omega
  | connectFails peer hpc => exact absurd rfl hconn
  | new ses hpc =>
    rw [hpc] at h
    have hnil : ses.reads = [] := List.eq_nil_of_length_eq_zero (h.1.trans h.2.1)
    have hqueue := List.length_pos_iff.mpr h.2.2
    simp only [Loop.left, Loop.count, isForward, hpc, unread, hnil, List.isEmpty_nil, ↓reduceIte, Bool.toNat_true]
    omega
  | newFails ses hpc => exact Nat.zero_le _
  | recv c ses d ds hpc hqueue =>
    -- the first read leaves the bound of a call that has read
    have hcall := fromCall_le c
    have hread : unread (.call c (ses.recv d)) = false := by cases c <;> simp [unread, Session.recv]
    simp only [Loop.left, Loop.count, isForward, hpc, hqueue, hread, List.length_cons, Bool.toNat_true]
    split_ifs <;> omega
  | stateful c ses hpc =>
    have hsame : unread (.call c { ses with ctx := { ses.ctx with dtlsStateful := true } }) =
        unread (.call c ses) := by cases c <;> rfl
    simp only [Loop.left, Loop.count, isForward, hpc, hsame, Bool.toNat_false, Nat.add_zero]
    exact le_refl _
  | ret c c' ses ok hpc hnext =>
    have hread := hreads rfl
    rw [hpc] at h hread
    have hpos := h.pos hread
    have hlt := fromCall_next hnext
    simp only [Loop.left, Loop.count, isForward, hpc, h.unread_eq hpos,
      (Counted.next hnext ses hpos l.now.queue).unread_eq hpos, Bool.toNat_true]
    simp only [Bool.false_eq_true, ↓reduceIte]
    omega
  | retLast c ses ok hpc hnext =>
    have hread := hreads rfl
    rw [hpc] at h hread
    have hlast : 2 ≤ fromCall c := by cases c <;> decide
    simp only [Loop.left, Loop.count, isForward, hpc, h.unread_eq (h.pos hread), Bool.toNat_true,
      Bool.false_eq_true, ↓reduceIte]
    omega
  | unconnect ses hpc =>
    simp only [Loop.left, Loop.count, isForward, hpc, Bool.toNat_true]
    exact le_refl _

theorem runs_left {s t : Loop} {more : List Label} (h : s.Inv) (hr : Runs s more t)
    (hconn : Label.connect false ∉ more) (harr : ∀ d, Label.arrive d ∉ more) :
    t.left + more.countP isForward ≤ s.left := by
  induction more generalizing s with
  | nil =>
    obtain rfl := Option.some.inj hr.2
    exact le_refl _
  | cons a as ih =>
    obtain ⟨u, hreads, hu, ht⟩ := runs_cons.mp hr
    have hstep := step_left h hreads hu (fun ha => hconn (ha ▸ List.mem_cons_self))
      fun d ha => harr d (ha ▸ List.mem_cons_self)
    have hrest := ih (step_stepped h hreads hu).inv ht (fun hc => hconn (List.mem_cons_of_mem _ hc))
      fun d hd => harr d (List.mem_cons_of_mem _ hd)
    rw [List.countP_cons]
    cases hfwd : isForward a <;> simp only [hfwd, Bool.toNat_true, Bool.toNat_false] at hstep <;> simp <;> omega

theorem start_inv : Loop.start.Inv := rfl

/-- With nothing queued and nothing removed since the top, the loop is at its top. -/
theorem Loop.Inv.blocked {l : Loop} (h : l.Inv) (htaken : l.taken = 0) (hqueue : l.now.queue = []) : l.Blocked := by
  refine ⟨?_, hqueue⟩
  unfold Loop.Inv at h
  rw [htaken, hqueue] at h
  cases hpc : l.now.pc with
  | peek => rfl
  | connect peer => simp [hpc, Counted] at h
  | new ses => simp [hpc, Counted] at h
  | call c ses => cases c <;> simp [hpc, Counted] at h
  | unconnect ses => simp [hpc, Counted] at h
  | exited => simp [hpc, Counted] at h

/-- The loop is never stuck with a datagram queued. Inside a wolfSSL call it is
read if there is one, and else the call returns. -/
theorem goesOn_or_blocked (l : Loop) : l.now.pc = .exited ∨ l.GoesOn ∨ l.Blocked := by
  obtain ⟨⟨queue, connected, pc, past⟩, taken, done⟩ := l
  cases pc with
  | peek =>
    cases queue with
    | nil => exact Or.inr (Or.inr ⟨rfl, rfl⟩)
    | cons d ds => exact Or.inr (Or.inl ⟨.peek true, _, rfl, fun h => Bool.noConfusion h, rfl⟩)
  | connect peer => exact Or.inr (Or.inl ⟨.connect true, _, rfl, fun h => Bool.noConfusion h, rfl⟩)
  | new ses => exact Or.inr (Or.inl ⟨.new true, _, rfl, fun h => Bool.noConfusion h, rfl⟩)
  | call c ses =>
    cases queue with
    | nil =>
      refine Or.inr (Or.inl ?_)
      cases c with
      | accept => exact ⟨.ret true, _, rfl, fun _ _ => rfl, rfl⟩
      | read => exact ⟨.ret true, _, rfl, fun _ _ => rfl, rfl⟩
      | write => exact ⟨.ret true, _, rfl, fun _ _ => rfl, rfl⟩
      | shutdown => exact ⟨.ret true, _, rfl, fun _ _ => rfl, rfl⟩
    | cons d ds => exact Or.inr (Or.inl ⟨.recv, _, rfl, fun h => Bool.noConfusion h, rfl⟩)
  | unconnect ses => exact Or.inr (Or.inl ⟨.unconnect, _, rfl, fun h => Bool.noConfusion h, rfl⟩)
  | exited => exact Or.inl rfl

/-- **When the server is not blocked.** From every state the loop reaches, on
every way on, whatever arrives and whatever each call returns: the iterations
that come back to the top have all removed a datagram, and without arrivals the
loop goes on until it blocks on an empty queue, after at most as many iterations
as datagrams were queued or just taken, exactly when no connect to a peeked
sender fails. -/
theorem loop_progress_iff (before more : List Label) (s t : Loop) (hs : Runs Loop.start before s)
    (ht : Runs s more t) : Progresses s more t ↔ Label.connect false ∉ more := by
  have hinv : s.Inv := runs_inv start_inv hs
  obtain ⟨new, hnew, hpos⟩ := runs_done hinv ht
  constructor
  · rintro ⟨new', hnew', hpos', -⟩
    obtain rfl : new' = new := List.append_cancel_left (hnew'.symm.trans hnew)
    exact hpos.mp hpos'
  · intro hconn
    refine ⟨new, hnew, hpos.mpr hconn, goesOn_or_blocked t, fun harr => ?_⟩
    have hlen : new.length ≤ new.sum := List.length_le_sum_of_one_le new (hpos.mpr hconn)
    have htotal : new.sum + t.taken + t.now.queue.length = s.taken + s.now.queue.length := by
      have := runs_total hinv ht harr
      simp only [Loop.total, hnew, List.sum_append] at this
      omega
    have hleft := runs_left hinv ht hconn harr
    have hbound := s.left_le
    refine ⟨by omega, htotal, by omega, fun hall => (runs_inv hinv ht).blocked (by omega) ?_⟩
    exact List.eq_nil_of_length_eq_zero (by omega)

/-- Two clients are queued; the first one's handshake fails, the second is served. -/
def drained : List Label :=
  [.peek true, .connect true, .new true, .recv, .ret false, .ret false, .unconnect,
    .peek true, .connect true, .new true, .recv, .stateful, .ret true, .ret true, .ret true, .ret true, .unconnect]

theorem loop_progress_drained : ∃ s t, Runs Loop.start [.arrive helloA, .arrive helloB] s ∧ Runs s drained t ∧
    s.now.queue = [helloA, helloB] ∧ t.done = [1, 1] ∧ t.Blocked ∧ Progresses s drained t := by
  have hmeets : Meets Loop.step AcceptReads Loop.start [.arrive helloA, .arrive helloB] := by decide
  obtain ⟨s, hs, hqueue, hmore, t, ht, hdone, hblocked⟩ :
      ∃ s, run Loop.step Loop.start [.arrive helloA, .arrive helloB] = some s ∧
      s.now.queue = [helloA, helloB] ∧ Meets Loop.step AcceptReads s drained ∧
      ∃ t, run Loop.step s drained = some t ∧ t.done = [1, 1] ∧ t.Blocked :=
    ⟨_, rfl, rfl, by decide, _, rfl, rfl, rfl, rfl⟩
  refine ⟨s, t, ⟨hmeets, hs⟩, ⟨hmore, ht⟩, hqueue, hdone, hblocked, ?_⟩
  apply (loop_progress_iff _ drained s t ⟨hmeets, hs⟩ ⟨hmore, ht⟩).mpr
  simp [drained]

/-- The schedule of a loop that peeks `n` times and fails to connect each time. -/
def retries (n : ℕ) : List Label := (List.replicate n [.peek true, .connect false]).flatten

/-- **A connect that fails stalls the loop.** From the top, with a datagram
queued, the loop can go round any number of times and still have the same queue. -/
theorem connect_stalls (n : ℕ) (s : Loop) (hinv : s.Inv) (hpc : s.now.pc = .peek) (hqueue : s.now.queue ≠ []) :
    Runs s (retries n) { s with done := s.done ++ List.replicate n 0 } := by
  induction n generalizing s with
  | zero => exact ⟨trivial, by simp [retries, run]⟩
  | succ n ih =>
    obtain ⟨now, taken, done⟩ := s
    obtain ⟨queue, connected, pc, past⟩ := now
    obtain rfl : pc = .peek := hpc
    obtain rfl : taken = 0 := hinv
    cases queue with
    | nil => exact absurd rfl hqueue
    | cons d ds =>
      have hrest := ih ⟨⟨d :: ds, connected, .peek, past⟩, 0, done ++ [0]⟩ rfl rfl hqueue
      rw [List.append_assoc] at hrest
      apply runs_cons.mpr
      refine ⟨_, fun h => Bool.noConfusion h, rfl, ?_⟩
      apply runs_cons.mpr
      exact ⟨_, fun h => Bool.noConfusion h, rfl, hrest⟩

/-- A datagram from `203.0.113.9:5555`, to which the host has no route. -/
def noRoute : Datagram := ⟨⟨0xcb007109, 5555⟩, [22, 254, 253]⟩

/-- **One client blocks the server.** The connect to its address fails and the
loop goes back to the peek with its datagram still at the head of the queue. -/
theorem connect_fails_no_progress :
    ¬ ∀ (before more : List Label) (s t : Loop), Runs Loop.start before s → s.now.queue ≠ [] → Runs s more t →
      Progresses s more t := by
  intro hall
  obtain ⟨s, hs, hpc, hqueue⟩ : ∃ s, Runs Loop.start [.arrive noRoute] s ∧ s.now.pc = .peek ∧ s.now.queue ≠ [] :=
    ⟨_, ⟨by decide, rfl⟩, rfl, by decide⟩
  have hstall := connect_stalls 1 s (runs_inv start_inv hs) hpc hqueue
  obtain ⟨new, hnew, hpos, -⟩ := hall _ _ s _ hs hqueue hstall
  obtain rfl : [0] = new := List.append_cancel_left hnew
  exact absurd (hpos 0 (List.mem_singleton.mpr rfl)) (lt_irrefl 0)

end Progress
end PqcDtls
