import Qmem.Lib.Run
import Mathlib.Logic.Function.Basic

/-!
# The thread of the IPC server (`daemon/ipc_server.c`)

The main thread starts and stops the server, the server's own thread waits for connections and
serves them one after the other, and the other threads of the daemon open and close descriptors of
their own; `daemon_shutdown` has ended these before it stops the server. The steps are the calls
and the accesses to the shared variables, and they come in any order.

Main results: `server_safe`, `server_stops`.
-/

namespace Qmem

namespace ServerThread

/-- What a descriptor is open for. -/
inductive Use where
  | server
  | client
  | other
deriving DecidableEq

/-- Where `server_thread` is: what it does next. In `accepting` it has read `g_server_fd`. -/
inductive ThreadAt where
  | begin
  | test
  | poll
  | accept
  | accepting (fd : Option Nat)
  | serving (client : Nat)
  | closing (client : Nat)
  | ended
deriving DecidableEq

/-- Where the main thread is. From `socket` to `create` it is in `ipc_server_start`, and the three
below take back what a failure has left; `running` says whether `g_running` was set already. From
`shutdown` to `unlink` it is in `ipc_server_stop`. -/
inductive MainAt where
  | idle
  | socket
  | bind
  | listen
  | run
  | create
  | undoClose (running : Bool)
  | undoClear (running : Bool)
  | undoRunning
  | up
  | shutdown
  | close
  | clear
  | join
  | unlink
deriving DecidableEq

/-- The shared variables, the open descriptors, whether there is a file at the socket's path, and
where the threads are. -/
structure State where
  running : Bool
  serverFd : Option Nat
  pfd : Option Nat
  fds : Nat → Option Use
  path : Bool
  main : MainAt
  thread : Option ThreadAt

/-- What `poll` says. -/
inductive Polled where
  | interrupted
  | failed
  | timeout
  | input
  | noInput

/-- The next step is taken by one of the threads. `result` is what its call returns, if it
succeeds: the descriptor, if it is for one. -/
inductive Event where
  | main (result : Option Nat)
  | thread (polled : Polled) (result : Option Nat)
  | opens (fd : Nat)
  | closes (fd : Nat)

/-! ## Steps -/

/-- `close(g_server_fd)`. -/
def State.closeServer (s : State) : Nat → Option Use :=
  match s.serverFd with
  | none => s.fds
  | some fd => Function.update s.fds fd none

/-- A step of the main thread. -/
def mainStep (s : State) (result : Option Nat) : State :=
  match s.main with
  | .idle => { s with path := false, main := .socket }
  | .socket =>
    match result with
    | none => { s with serverFd := none, main := .idle }
    | some fd =>
      if s.fds fd = none then
        { s with
          serverFd := some fd
          fds := Function.update s.fds fd (some .server)
          main := .bind }
      else { s with serverFd := none, main := .idle }
  | .bind =>
    if result.isSome then { s with path := true, main := .listen }
    else { s with main := .undoClose false }
  | .listen => { s with main := if result.isSome then .run else .undoClose false }
  | .run => { s with running := true, main := .create }
  | .create =>
    if result.isSome then { s with thread := some .begin, main := .up }
    else { s with main := .undoClose true }
  | .undoClose running => { s with fds := s.closeServer, main := .undoClear running }
  | .undoClear running =>
    { s with serverFd := none, main := if running then .undoRunning else .idle }
  | .undoRunning => { s with running := false, main := .idle }
  | .up => if s.running then { s with running := false, main := .shutdown } else s
  | .shutdown => { s with main := if s.serverFd.isSome then .close else .join }
  | .close => { s with fds := s.closeServer, main := .clear }
  | .clear => { s with serverFd := none, main := .join }
  -- `pthread_join` waits
  | .join => if s.thread = some .ended then { s with thread := none, main := .unlink } else s
  | .unlink => { s with path := false, main := .idle }

/-- A step of the server's thread. `accept` needs a descriptor that is open, and returns one that
is not. -/
def threadStep (s : State) (polled : Polled) (result : Option Nat) : State :=
  match s.thread with
  | none => s
  | some .begin => { s with pfd := s.serverFd, thread := some .test }
  | some .test => { s with thread := some (if s.running then .poll else .ended) }
  | some .poll =>
    match polled with
    | .interrupted | .timeout | .noInput => { s with thread := some .test }
    | .failed => { s with thread := some .ended }
    | .input => { s with thread := some .accept }
  | some .accept => { s with thread := some (.accepting s.serverFd) }
  | some (.accepting fd) =>
    match result with
    | none => { s with thread := some .test }
    | some client =>
      if (fd.bind s.fds).isSome ∧ s.fds client = none then
        { s with
          fds := Function.update s.fds client (some .client)
          thread := some (.serving client) }
      else { s with thread := some .test }
  | some (.serving client) => { s with thread := some (.closing client) }
  | some (.closing client) =>
    { s with fds := Function.update s.fds client none, thread := some .test }
  | some .ended => s

/-- In `ipc_server_stop`, where there are no other threads any more. -/
def MainAt.stopping : MainAt → Bool
  | .shutdown | .close | .clear | .join | .unlink => true
  | _ => false

def step (s : State) : Event → State
  | .main result => mainStep s result
  | .thread polled result => threadStep s polled result
  | .opens fd =>
    if s.main.stopping = false ∧ s.fds fd = none then
      { s with fds := Function.update s.fds fd (some .other) }
    else s
  | .closes fd =>
    if s.fds fd = some .other then { s with fds := Function.update s.fds fd none } else s

/-- Before the first start; `path` says whether an earlier daemon has left its file. -/
def start (path : Bool) : State where
  running := false
  serverFd := none
  pfd := none
  fds _ := none
  path := path
  main := .idle
  thread := none

abbrev after (path : Bool) (events : List Event) : State := Run.state step (start path) events

/-! ## What holds at every place -/

namespace MainAt

/-- `g_running`. -/
def running : MainAt → Bool
  | create | up | undoRunning => true
  | undoClose running | undoClear running => running
  | _ => false

/-- There is a thread. -/
def threaded : MainAt → Bool
  | up | shutdown | close | clear | join => true
  | _ => false

/-- The server's descriptor is open. -/
def holds : MainAt → Bool
  | bind | listen | run | create | undoClose _ | up | shutdown | close => true
  | _ => false

/-- `g_server_fd` is not -1. -/
def named : MainAt → Bool
  | undoClear _ | clear => true
  | at_ => at_.holds

/-- The socket has been bound and its file has not been removed. -/
def bound : MainAt → Bool
  | listen | run | create | up | shutdown | close | clear | join | unlink => true
  | _ => false

end MainAt

/-- The descriptor of the connection that is served. -/
def State.client (s : State) : Option Nat :=
  match s.thread with
  | some (.serving client) | some (.closing client) => some client
  | _ => none

/-- The server's thread has a call before it that is about this descriptor, or may come back to
one. -/
def State.uses (s : State) (fd : Nat) : Prop :=
  match s.thread with
  | none | some .begin | some .ended => False
  | some (.accepting accepting) => accepting = some fd ∨ s.pfd = some fd
  | some _ => s.pfd = some fd

/-- What every step keeps. -/
structure Valid (s : State) : Prop where
  running : s.running = s.main.running
  thread : s.thread.isSome = s.main.threaded
  named : s.serverFd.isSome = s.main.named
  path : s.main.bound = true → s.path = true
  server : ∀ n, s.fds n = some .server ↔ s.main.holds = true ∧ s.serverFd = some n
  client : ∀ n, s.fds n = some .client ↔ s.client = some n
  uses : ∀ n, s.uses n →
    if s.main.holds = true then s.serverFd = some n else s.fds n = none
  freed : s.main.stopping = true → s.main.holds = false → ∀ n, s.serverFd = some n → s.fds n = none

theorem valid_start (path : Bool) : Valid (start path) where
  running := rfl
  thread := rfl
  named := rfl
  path h := absurd h Bool.false_ne_true
  server n := by simp [start, MainAt.holds]
  client n := by simp [start, State.client]
  uses n h := absurd h (by simp [start, State.uses])
  freed h := absurd h Bool.false_ne_true

/-! ## Every step keeps it -/

/-- Whether a descriptor is open for one use does not change where others open and close theirs. -/
theorem update_iff {fds : Nat → Option Use} {fd : Nat} {use : Use} {new : Option Use}
    (hbefore : fds fd ≠ some use) (hnew : new ≠ some use) (n : Nat) :
    Function.update fds fd new n = some use ↔ fds n = some use := by
  by_cases heq : n = fd
  · subst heq
    simp [hbefore, hnew]
  · rw [Function.update_of_ne heq]

/-- A step of the main thread that leaves the descriptors and the server's thread alone. -/
theorem Valid.moves {s s' : State} (h : Valid s) (hfds : s'.fds = s.fds)
    (hthread : s'.thread = s.thread) (hpfd : s'.pfd = s.pfd) (hholds : s'.main.holds = s.main.holds)
    (hserver : s.main.holds = true → s'.serverFd = s.serverFd)
    (hthreaded : s'.main.threaded = s.main.threaded) (hrunning : s'.running = s'.main.running)
    (hnamed : s'.serverFd.isSome = s'.main.named)
    (hpath : s'.main.bound = true → s'.path = true)
    (hfreed : s'.main.stopping = true → s'.main.holds = false →
      ∀ n, s'.serverFd = some n → s'.fds n = none) : Valid s' where
  running := hrunning
  thread := by rw [hthread, hthreaded, h.thread]
  named := hnamed
  path := hpath
  server n := by
    rw [hfds, hholds, h.server n]
    constructor
    · intro ⟨hopen, hn⟩
      exact ⟨hopen, by rw [hserver hopen, hn]⟩
    · intro ⟨hopen, hn⟩
      exact ⟨hopen, by rw [← hserver hopen, hn]⟩
  client n := by
    rw [hfds, h.client n]
    simp only [State.client, hthread]
  uses n hn := by
    simp only [State.uses, hthread, hpfd] at hn
    have hold := h.uses n hn
    rw [hholds, hfds]
    by_cases hopen : s.main.holds = true
    · rw [if_pos hopen] at hold ⊢
      rw [hserver hopen, hold]
    · rwa [if_neg hopen] at hold ⊢
  freed := hfreed

/-- `socket` has given a descriptor. -/
theorem Valid.opened {s : State} (h : Valid s) (hmain : s.main = .socket) {fd : Nat}
    (hfree : s.fds fd = none) :
    Valid { s with
      serverFd := some fd
      fds := Function.update s.fds fd (some .server)
      main := .bind } where
  running := by simp [h.running, hmain, MainAt.running]
  thread := by simp [h.thread, hmain, MainAt.threaded]
  named := rfl
  path hb := absurd hb Bool.false_ne_true
  server n := by
    have hn : s.fds n ≠ some .server := by
      intro hn
      have hopen := ((h.server n).1 hn).1
      rw [hmain] at hopen
      exact Bool.false_ne_true hopen
    by_cases heq : n = fd
    · subst heq
      simp [MainAt.holds]
    · simp [Function.update_of_ne heq, hn, MainAt.holds, Ne.symm heq]
  client n := (update_iff (by simp [hfree]) (by simp) n).trans (h.client n)
  uses n hn := by
    have hthread := h.thread
    rw [hmain] at hthread
    have hnone : s.thread = none := by simpa [MainAt.threaded] using hthread
    simp [State.uses, hnone] at hn
  freed h := absurd h Bool.false_ne_true

/-- The server's descriptor is closed. -/
theorem Valid.closed {s : State} (h : Valid s) {at_ : MainAt} (hopen : s.main.holds = true)
    (hholds : at_.holds = false) (hnamed : at_.named = s.main.named)
    (hthreaded : at_.threaded = s.main.threaded) (hrunning : at_.running = s.main.running)
    (hbound : at_.bound = true → s.main.bound = true) :
    Valid { s with fds := s.closeServer, main := at_ } := by
  obtain ⟨fd, hfd⟩ : ∃ fd, s.serverFd = some fd := by
    have hsome : s.serverFd.isSome = true := by
      rw [h.named]
      cases hmain : s.main <;> simp [hmain, MainAt.holds, MainAt.named] at hopen ⊢
    exact Option.isSome_iff_exists.1 hsome
  have hserver : s.fds fd = some .server := (h.server fd).2 ⟨hopen, hfd⟩
  have hclose : s.closeServer = Function.update s.fds fd none := by
    simp only [State.closeServer, hfd]
  refine ⟨h.running.trans hrunning.symm, h.thread.trans hthreaded.symm, h.named.trans hnamed.symm,
    fun hb => h.path (hbound hb), fun n => ?_, fun n => ?_, fun n hn => ?_, fun _ _ n hn => ?_⟩
  · by_cases heq : n = fd
    · simp [hclose, heq, hholds]
    · have hn : s.fds n ≠ some .server := by
        intro hn
        have hsame := ((h.server n).1 hn).2
        rw [hfd] at hsame
        exact heq (Option.some.inj hsame).symm
      simp [hclose, Function.update_of_ne heq, hn, hholds]
  · rw [hclose]
    exact (update_iff (by simp [hserver]) (by simp) n).trans (h.client n)
  · have hold := h.uses n hn
    rw [if_pos hopen, hfd] at hold
    simp [hholds, hclose, Option.some.inj hold]
  · simp [hclose, Option.some.inj (hfd.symm.trans hn)]

attribute [local simp] MainAt.running MainAt.threaded MainAt.holds MainAt.named MainAt.bound
  MainAt.stopping

/-- `pthread_create` has started the thread. -/
theorem Valid.created {s : State} (h : Valid s) (hmain : s.main = .create) :
    Valid { s with thread := some .begin, main := .up } := by
  have hrunning := h.running
  have hnamed := h.named
  have hpath := h.path
  have hserver := h.server
  have hclient := h.client
  have hnone : s.thread = none := by
    have hthread := h.thread
    simpa [hmain] using hthread
  constructor <;> simp_all [State.client, State.uses]

/-- `pthread_join` has waited for the thread's end. -/
theorem Valid.joined {s : State} (h : Valid s) (hmain : s.main = .join)
    (hend : s.thread = some .ended) : Valid { s with thread := none, main := .unlink } := by
  have hrunning := h.running
  have hnamed := h.named
  have hpath := h.path
  have hserver := h.server
  have hclient := h.client
  constructor <;> simp_all [State.client, State.uses]

theorem valid_mainStep {s : State} (h : Valid s) (result : Option Nat) :
    Valid (mainStep s result) := by
  have hrunning := h.running
  have hthread := h.thread
  have hnamed := h.named
  have hpath := h.path
  unfold mainStep
  cases hmain : s.main with
  | idle | run | undoRunning | clear | unlink => apply h.moves <;> simp_all
  | socket =>
    cases result with
    | none => apply h.moves <;> simp_all
    | some fd =>
      by_cases hfree : s.fds fd = none
      · simp only [hfree]
        exact h.opened hmain hfree
      · simp only [hfree]
        apply h.moves <;> simp_all
  | bind | listen => cases result <;> apply h.moves <;> simp_all
  | create =>
    cases result with
    | none => apply h.moves <;> simp_all
    | some _ => exact h.created hmain
  | undoClose running => apply h.closed <;> simp_all
  | undoClear running => cases running <;> apply h.moves <;> simp_all
  | up =>
    have hrun : s.running = true := by simp [hrunning, hmain]
    simp only [hrun]
    apply h.moves <;> simp_all
  | shutdown =>
    have hsome : s.serverFd.isSome = true := by simp [hnamed, hmain]
    simp only [hsome]
    apply h.moves <;> simp_all
  | close => apply h.closed <;> simp_all
  | join =>
    by_cases hend : s.thread = some .ended
    · simp only [hend]
      exact h.joined hmain hend
    · simp only [hend]
      exact h

/-- A step of the server's thread that leaves the descriptors alone. -/
theorem Valid.goes {s : State} (h : Valid s) {at_ : ThreadAt} (pfd : Option Nat)
    (hthread : s.thread.isSome = true)
    (hclient : State.client { s with pfd := pfd, thread := some at_ } = s.client)
    (huses : ∀ n, State.uses { s with pfd := pfd, thread := some at_ } n →
      s.uses n ∨ s.serverFd = some n) :
    Valid { s with pfd := pfd, thread := some at_ } where
  running := h.running
  thread := h.thread ▸ hthread.symm
  named := h.named
  path := h.path
  server := h.server
  client n := by rw [hclient, ← h.client n]
  uses n hn := by
    rcases huses n hn with hbefore | hserver
    · exact h.uses n hbefore
    · by_cases hopen : s.main.holds = true
      · rwa [if_pos hopen]
      · rw [if_neg hopen]
        have hthreaded := h.thread.symm.trans hthread
        refine h.freed ?_ (by simpa using hopen) n hserver
        cases hmain : s.main <;> simp_all
  freed := h.freed

/-- `accept` was given a descriptor that is open: the server has it still. -/
theorem Valid.holds_of_open {s : State} (h : Valid s) {fd : Option Nat}
    (hthread : s.thread = some (.accepting fd)) (hopen : (fd.bind s.fds).isSome = true) :
    s.main.holds = true := by
  obtain ⟨m, rfl⟩ := Option.isSome_iff_exists.1 (Option.isSome_of_isSome_bind hopen)
  by_contra hholds
  have hold := h.uses m (by simp [State.uses, hthread])
  rw [if_neg hholds] at hold
  exact absurd hopen (by simp [hold])

/-- `accept` has given a connection. -/
theorem Valid.accepted {s : State} (h : Valid s) {fd : Option Nat}
    (hthread : s.thread = some (.accepting fd)) (hopen : (fd.bind s.fds).isSome = true)
    {client : Nat} (hfree : s.fds client = none) :
    Valid { s with
      fds := Function.update s.fds client (some .client)
      thread := some (.serving client) } where
  running := h.running
  thread := by rw [← h.thread, hthread]; rfl
  named := h.named
  path := h.path
  server n := (update_iff (by simp [hfree]) (by simp) n).trans (h.server n)
  client n := by
    have hold := h.client n
    by_cases heq : n = client
    · simp [heq, State.client]
    · simp only [State.client, hthread] at hold
      simpa [Function.update_of_ne heq, State.client, Ne.symm heq] using hold
  uses n hn := by
    have hold := h.uses n (by simpa [State.uses, hthread] using Or.inr hn)
    have hholds := h.holds_of_open hthread hopen
    rw [if_pos hholds] at hold ⊢
    exact hold
  freed _ hholds := absurd (h.holds_of_open hthread hopen) (by simpa using hholds)

/-- The connection has been closed. -/
theorem Valid.served {s : State} (h : Valid s) {client : Nat}
    (hthread : s.thread = some (.closing client)) :
    Valid { s with fds := Function.update s.fds client none, thread := some .test } where
  running := h.running
  thread := by rw [← h.thread, hthread]; rfl
  named := h.named
  path := h.path
  server n := by
    have hclient : s.fds client = some .client :=
      (h.client client).2 (by simp [State.client, hthread])
    exact (update_iff (by simp [hclient]) (by simp) n).trans (h.server n)
  client n := by
    have hold := h.client n
    by_cases heq : n = client
    · simp [heq, State.client]
    · simp only [State.client, hthread] at hold
      simpa [Function.update_of_ne heq, State.client, Ne.symm heq] using hold
  uses n hn := by
    have hold := h.uses n (by simpa [State.uses, hthread] using hn)
    by_cases hholds : s.main.holds = true
    · rw [if_pos hholds] at hold ⊢
      exact hold
    · rw [if_neg hholds] at hold ⊢
      by_cases heq : n = client
      · simp [heq]
      · simpa [Function.update_of_ne heq] using hold
  freed hstop hholds n hn := by
    by_cases heq : n = client
    · simp [heq]
    · simpa [Function.update_of_ne heq] using h.freed hstop hholds n hn

theorem valid_threadStep {s : State} (h : Valid s) (polled : Polled) (result : Option Nat) :
    Valid (threadStep s polled result) := by
  unfold threadStep
  cases hthread : s.thread with
  | none => exact h
  | some at_ =>
    have hsome : s.thread.isSome = true := by simp [hthread]
    cases at_ with
    | begin => apply h.goes s.serverFd hsome <;> simp [State.client, State.uses, hthread]
    | test =>
      apply h.goes s.pfd hsome <;> by_cases hrun : s.running = true <;>
        simp +contextual [State.client, State.uses, hthread, hrun]
    | poll =>
      cases polled <;> apply h.goes s.pfd hsome <;>
        simp +contextual [State.client, State.uses, hthread]
    | accept =>
      apply h.goes s.pfd hsome
      · simp [State.client, hthread]
      · simp [State.uses, hthread]
        tauto
    | accepting fd =>
      have htest : Valid { s with thread := some .test } := by
        apply h.goes s.pfd hsome
        · simp [State.client, hthread]
        · simp [State.uses, hthread]
          tauto
      cases result with
      | none => exact htest
      | some client =>
        by_cases hok : (fd.bind s.fds).isSome ∧ s.fds client = none
        · simp only [hok]
          exact h.accepted hthread hok.1 hok.2
        · simp only [hok]
          exact htest
    | serving client =>
      apply h.goes s.pfd hsome <;> simp +contextual [State.client, State.uses, hthread]
    | closing client => exact h.served hthread
    | ended => exact h

theorem valid_opens {s : State} (h : Valid s) (hstop : s.main.stopping = false) {fd : Nat}
    (hfree : s.fds fd = none) : Valid { s with fds := Function.update s.fds fd (some .other) } where
  running := h.running
  thread := h.thread
  named := h.named
  path := h.path
  server n := (update_iff (by simp [hfree]) (by simp) n).trans (h.server n)
  client n := (update_iff (by simp [hfree]) (by simp) n).trans (h.client n)
  uses n hn := by
    -- there is a thread, and the server is not being stopped
    have hsome : s.thread.isSome = true := by
      cases hthread : s.thread <;> simp [State.uses, hthread] at hn ⊢
    have hthreaded := h.thread.symm.trans hsome
    have hholds : s.main.holds = true := by
      cases hmain : s.main <;> simp [hmain] at hthreaded hstop ⊢
    have hold := h.uses n hn
    rw [if_pos hholds] at hold ⊢
    exact hold
  freed hnot := absurd (hstop.symm.trans hnot) Bool.false_ne_true

theorem valid_closes {s : State} (h : Valid s) {fd : Nat} (hother : s.fds fd = some .other) :
    Valid { s with fds := Function.update s.fds fd none } where
  running := h.running
  thread := h.thread
  named := h.named
  path := h.path
  server n := (update_iff (by simp [hother]) (by simp) n).trans (h.server n)
  client n := (update_iff (by simp [hother]) (by simp) n).trans (h.client n)
  uses n hn := by
    have hold := h.uses n hn
    by_cases hholds : s.main.holds = true
    · rw [if_pos hholds] at hold ⊢
      exact hold
    · rw [if_neg hholds] at hold ⊢
      by_cases heq : n = fd
      · simp [heq]
      · simpa [Function.update_of_ne heq] using hold
  freed hstop hholds n hn := by
    by_cases heq : n = fd
    · simp [heq]
    · simpa [Function.update_of_ne heq] using h.freed hstop hholds n hn

theorem valid_step {s : State} (h : Valid s) (event : Event) : Valid (step s event) := by
  cases event with
  | main result => exact valid_mainStep h result
  | thread polled result => exact valid_threadStep h polled result
  | opens fd =>
    by_cases hok : s.main.stopping = false ∧ s.fds fd = none
    · simp only [step, hok]
      exact valid_opens h hok.1 hok.2
    · simp only [step, if_neg hok]
      exact h
  | closes fd =>
    by_cases hok : s.fds fd = some .other
    · simp only [step, hok]
      exact valid_closes h hok
    · simp only [step, hok]
      exact h

theorem valid_after (path : Bool) (events : List Event) : Valid (after path events) :=
  Run.invariant (valid_start path) (fun _ event h => valid_step h event) events

/-- Whatever order the steps of the threads come in: the server's thread waits on and accepts from
the server's own descriptor, or one that is closed, and the main thread closes the server's own;
the descriptors that are open for connections are the one that is served, if there is one; and
between a stop and the next start there is no thread and nothing is left open. -/
theorem server_safe (path : Bool) (events : List Event) :
    let s := after path events
    (∀ n, s.uses n → s.fds n = some .server ∨ s.fds n = none) ∧
    (∀ n, s.fds n = some .client ↔ s.client = some n) ∧
    (s.main = .close ∨ (∃ running, s.main = .undoClose running) →
      ∃ n, s.serverFd = some n ∧ s.fds n = some .server) ∧
    (s.thread.isSome = true → s.path = true) ∧
    (s.main = .idle →
      s.running = false ∧ s.thread = none ∧ s.serverFd = none ∧
        ∀ n, s.fds n ≠ some .server ∧ s.fds n ≠ some .client) := by
  intro s
  have h : Valid s := valid_after path events
  have hserver := h.server
  have hclient := h.client
  refine ⟨fun n hn => ?_, hclient, fun hmain => ?_, fun hthread => ?_, fun hmain => ?_⟩
  · have huse := h.uses n hn
    by_cases hholds : s.main.holds = true
    · rw [if_pos hholds] at huse
      exact Or.inl ((hserver n).2 ⟨hholds, huse⟩)
    · rw [if_neg hholds] at huse
      exact Or.inr huse
  · have hsome : s.serverFd.isSome = true := by
      rw [h.named]
      rcases hmain with hmain | ⟨running, hmain⟩ <;> simp [hmain]
    obtain ⟨n, hn⟩ := Option.isSome_iff_exists.1 hsome
    refine ⟨n, hn, (hserver n).2 ⟨?_, hn⟩⟩
    rcases hmain with hmain | ⟨running, hmain⟩ <;> simp [hmain]
  · apply h.path
    have hthreaded := h.thread.symm.trans hthread
    cases hmain : s.main <;> simp [hmain] at hthreaded ⊢
  · have hrunning := h.running
    have hthread := h.thread
    have hnamed := h.named
    simp_all [State.client]

/-! ## The stop -/

/-- What is left of a stop once its thread has ended: the main thread's steps. -/
def MainAt.left : MainAt → Nat
  | shutdown => 5
  | close => 4
  | clear => 3
  | join => 2
  | unlink => 1
  | _ => 0

/-- How many steps the server's thread has left at most once `g_running` is cleared. -/
def State.left (s : State) : Nat :=
  match s.thread with
  | none | some .ended => 0
  | some .test => 1
  | some .begin | some (.closing _) => 2
  | some (.serving _) => 3
  | some (.accepting _) => 4
  | some .accept => 5
  | some .poll => 6

def Event.isMain : Event → Bool
  | main _ => true
  | _ => false

def Event.isThread : Event → Bool
  | thread _ _ => true
  | _ => false

/-- The server has stopped. -/
def State.stopped (s : State) : Prop := s.main = .idle ∧ s.path = false

/-- The server is stopping or has stopped. -/
def State.stops (s : State) : Prop := Valid s ∧ (s.main.stopping = true ∨ s.stopped)

/-- The server's thread leaves the main thread's part of the state alone. -/
theorem threadStep_frame (s : State) (polled : Polled) (result : Option Nat) :
    (threadStep s polled result).main = s.main ∧ (threadStep s polled result).path = s.path := by
  unfold threadStep
  split <;> (repeat' split) <;> exact ⟨rfl, rfl⟩

/-- A thread that has ended takes no more steps. -/
theorem threadStep_ended {s : State} (hleft : s.left = 0) (polled : Polled) (result : Option Nat) :
    threadStep s polled result = s := by
  unfold threadStep
  cases hthread : s.thread with
  | none => rfl
  | some at_ => cases at_ <;> simp [State.left, hthread] at hleft ⊢

/-- Every step of the server's thread is one less to take. -/
theorem left_threadStep {s : State} (hrunning : s.running = false) (hleft : s.left ≠ 0)
    (polled : Polled) (result : Option Nat) :
    (threadStep s polled result).left + 1 ≤ s.left := by
  unfold threadStep
  cases hthread : s.thread with
  | none => simp [State.left, hthread] at hleft
  | some at_ =>
    cases at_ with
    | test | accept | serving | closing | begin => simp [State.left, hthread, hrunning]
    | poll => cases polled <;> simp [State.left, hthread]
    | accepting fd =>
      cases result with
      | none => simp [State.left, hthread]
      | some client =>
        by_cases hok : (fd.bind s.fds).isSome ∧ s.fds client = none
        · simp [State.left, hthread, hok]
        · simp [State.left, hthread, hok]
    | ended => simp [State.left, hthread] at hleft

/-- A step of the main thread in a stop: the server's thread has no more steps to take than it had,
and the main thread has one less, if it does not have to wait. -/
theorem mainStep_stopping {s : State} (h : Valid s) (hstop : s.main.stopping = true)
    (result : Option Nat) :
    (mainStep s result).stops ∧ (mainStep s result).left ≤ s.left ∧
      (s.left = 0 → (mainStep s result).main.left + 1 ≤ s.main.left) := by
  refine ⟨⟨valid_mainStep h result, ?_⟩, ?_, fun hleft => ?_⟩
  · unfold mainStep
    cases hmain : s.main with
    | shutdown => by_cases hsome : s.serverFd.isSome = true <;> simp [hsome]
    | close | clear => simp
    | join => by_cases hend : s.thread = some .ended <;> simp [hend, hmain]
    | unlink => simp [State.stopped]
    | _ => simp [hmain] at hstop
  · unfold mainStep
    cases hmain : s.main with
    | shutdown | close | clear | unlink => simp [State.left]
    | join => by_cases hend : s.thread = some .ended <;> simp [State.left, hend]
    | _ => simp [hmain] at hstop
  · unfold mainStep
    cases hmain : s.main with
    | shutdown => by_cases hsome : s.serverFd.isSome = true <;> simp [MainAt.left, hsome]
    | close | clear | unlink => simp [MainAt.left]
    | join =>
      -- there is a thread, and it has no step left
      have hthread := h.thread
      have hend : s.thread = some .ended := by
        simp only [State.left] at hleft
        cases hat : s.thread with
        | none => simp [hat, hmain] at hthread
        | some at_ => cases at_ <;> simp [hat] at hleft ⊢
      simp [MainAt.left, hend]
    | _ => simp [hmain] at hstop

/-- One step of a stop. -/
theorem stops_step {s : State} (h : s.stops) (hnot : ¬s.stopped) (event : Event) :
    (step s event).stops ∧
      (s.left ≠ 0 → (step s event).left + (if event.isThread = true then 1 else 0) ≤ s.left) ∧
      (s.left = 0 → (step s event).left = 0 ∧
        (step s event).main.left + (if event.isMain = true then 1 else 0) ≤ s.main.left) := by
  obtain ⟨hvalid, hstop | hstopped⟩ := h
  swap
  · exact absurd hstopped hnot
  have hrunning : s.running = false := by
    rw [hvalid.running]
    cases hmain : s.main <;> simp [hmain] at hstop ⊢
  cases event with
  | main result =>
    obtain ⟨hstops, hleft, hmain⟩ := mainStep_stopping hvalid hstop result
    refine ⟨hstops, fun _ => hleft, fun hzero => ⟨?_, hmain hzero⟩⟩
    exact Nat.le_zero.1 (hzero ▸ hleft)
  | thread polled result =>
    obtain ⟨hmain, hpath⟩ := threadStep_frame s polled result
    refine ⟨⟨valid_threadStep hvalid polled result, Or.inl (hmain ▸ hstop)⟩,
      fun hleft => left_threadStep hrunning hleft polled result, fun hzero => ?_⟩
    simp only [step, threadStep_ended hzero]
    simpa [Event.isMain] using hzero
  | opens fd =>
    have hstay : step s (.opens fd) = s := by
      simp only [step]
      rw [if_neg]
      intro hok
      exact absurd (hok.1.symm.trans hstop) Bool.false_ne_true
    rw [hstay]
    exact ⟨⟨hvalid, Or.inl hstop⟩, fun _ => Nat.le_refl _, fun hzero => ⟨hzero, Nat.le_refl _⟩⟩
  | closes fd =>
    have hmain : (step s (.closes fd)).main = s.main := by
      by_cases hok : s.fds fd = some .other <;> simp [step, hok]
    have hleft : (step s (.closes fd)).left = s.left := by
      by_cases hok : s.fds fd = some .other <;> simp [step, hok, State.left]
    rw [State.stops, hmain, hleft]
    exact ⟨⟨valid_step hvalid _, Or.inl hstop⟩, fun _ => Nat.le_refl _,
      fun hzero => ⟨hzero, Nat.le_refl _⟩⟩

/-- A stop comes to its end, whatever `poll` and `accept` return: at the latest when the server's
thread has taken six steps, the request that it serves among them, and then the main thread five.
-/
theorem server_stops (path : Bool) (events more last : List Event)
    (hstop : (after path events).main.stopping = true) (hmore : 6 ≤ more.countP Event.isThread)
    (hlast : 5 ≤ last.countP Event.isMain) :
    ∃ k ≤ (more ++ last).length, (after path (events ++ (more ++ last).take k)).stopped := by
  have hstops : (after path events).stops := ⟨valid_after path events, Or.inl hstop⟩
  have hbound (s : State) : s.left ≤ 6 := by
    simp only [State.left]
    split <;> simp
  -- first the thread
  obtain ⟨k, hk, hstops, hdone⟩ := Run.reaches State.stops
    (fun s => s.stopped ∨ s.left = 0) Event.isThread State.left
    (fun s event hs hnot => by
      obtain ⟨hnext, hleft, -⟩ := stops_step hs (fun h => hnot (Or.inl h)) event
      exact ⟨hnext, hleft fun h => hnot (Or.inr h)⟩)
    (fun s _ hzero => Or.inr hzero) hstops (Nat.le_trans (hbound _) hmore)
  rcases hdone with hstopped | hleft
  · refine ⟨k, by simp; omega, ?_⟩
    rw [List.take_append_of_le_length hk, after, Run.state_append]
    exact hstopped
  -- then the main thread
  have hmain (s : State) : s.main.left ≤ 5 := by
    simp only [MainAt.left]
    split <;> simp
  have hcount : 5 ≤ (more.drop k ++ last).countP Event.isMain := by
    rw [List.countP_append]
    omega
  obtain ⟨j, hj, -, hstopped⟩ := Run.reaches (fun s => s.stops ∧ s.left = 0)
    State.stopped Event.isMain (fun s => s.main.left)
    (fun s event hs hnot => by
      obtain ⟨hnext, -, hzero⟩ := stops_step hs.1 hnot event
      exact ⟨⟨hnext, (hzero hs.2).1⟩, (hzero hs.2).2⟩)
    (fun s hs hzero => by
      obtain ⟨⟨-, hstop | hstopped⟩, -⟩ := hs
      · cases hmain : s.main <;> simp [hmain, MainAt.left] at hzero hstop
      · exact hstopped)
    ⟨hstops, hleft⟩ (Nat.le_trans (hmain _) hcount)
  refine ⟨k + j, ?_, ?_⟩
  · simp only [List.length_append, List.length_drop] at hj ⊢
    omega
  · have hsplit : (more ++ last).take (k + j) = more.take k ++ (more.drop k ++ last).take j := by
      rw [List.take_add, List.take_append_of_le_length hk, List.drop_append_of_le_length hk]
    rw [hsplit, after, Run.state_append, Run.state_append]
    exact hstopped

/-- `poll` times out again and again. -/
theorem server_stops_timeouts :
    (after true (List.replicate 7 (Event.main (some 3)))).main.stopping = true ∧
      ∃ k ≤ (List.replicate 6 (Event.thread .timeout none) ++
          List.replicate 5 (Event.main none)).length,
        (after true (List.replicate 7 (Event.main (some 3)) ++
          (List.replicate 6 (Event.thread .timeout none) ++
            List.replicate 5 (Event.main none)).take k)).stopped :=
  ⟨rfl, server_stops true _ _ _ rfl (by decide) (by decide)⟩

end ServerThread

end Qmem
