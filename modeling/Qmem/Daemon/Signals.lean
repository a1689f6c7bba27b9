import Qmem.Daemon.Config
import Qmem.Lib.Run

/-!
# Signals (`daemon/daemon.c`)

The handler clears `g_running`, and `daemon_run` sets it before it looks at it for the first time.
A signal that comes during `daemon_init` is lost that way. From then on one is heeded, but for the
moment between the test of the loop and the cycle that it lets in.

Main result: `stop_signal_iff`.
-/

namespace Qmem

open CLib

/-! ## The program -/

/-- What `daemon_init` does when the handlers are installed. -/
inductive InitCall where
  | fork
  | setsid
  | chdir
  | umask
  | closeStandardFds
  | logInit
  | writePidfile
  | ringbufCreate
  | svcManagerInit
  | ipcServerStart
  | apiInit
  | httpServerStart
  | pluginLoaderInit
  | pluginLoaderLoadAll
  | pluginLoaderStartWatcher

/-- `daemon_init` returns -1 if this fails. -/
def InitCall.fatal : InitCall → Bool
  | .fork | .setsid | .ringbufCreate | .svcManagerInit => true
  | _ => false

/-- `daemonize`; after a fork the parent exits, and its memory goes on in the child. -/
def daemonizeCalls (cfg : Config) : List InitCall :=
  if cfg.foreground then [] else [.fork, .setsid, .fork, .chdir, .umask, .closeStandardFds]

/-- `daemon_init`; `web` is QMEM_WEB_ENABLED. -/
def initCalls (cfg : Config) (web : Bool) : List InitCall :=
  List.flatten [
    daemonizeCalls cfg,
    if cfg.foreground then [] else [.logInit],
    if cfg.pidfile.text.length > 0 then [.writePidfile] else [],
    [.ringbufCreate, .svcManagerInit, .ipcServerStart],
    if web then [.apiInit, .httpServerStart] else [],
    if cfg.enablePlugins then
      [.pluginLoaderInit, .pluginLoaderLoadAll, .pluginLoaderStartWatcher]
    else []]

/-- What a cycle does after `svc_manager_collect_all`. -/
inductive CycleCall where
  | svcManagerSnapshotAll
  | ringbufPush
  | reload
  | pluginLoaderCheckUpdates
deriving DecidableEq

def cycleCallsAfterCollect (cfg : Config) : List CycleCall :=
  .svcManagerSnapshotAll :: .ringbufPush :: .reload ::
    if cfg.enablePlugins then [.pluginLoaderCheckUpdates] else []

/-- What the main thread does next. -/
inductive Point where
  | init (todo : List InitCall)
  | failed
  | run
  | loopTest
  | collectAll
  | cycle (todo : List CycleCall)
  | sleepTest (i : Nat)
  | sleep (i : Nat)
  | returned

/-- The daemon's process; `cycles` have been started. -/
structure Process where
  point : Point
  running : Bool
  reload : Bool
  cycles : Nat

inductive Signal where
  | term
  | int
  | hup
deriving DecidableEq

/-- `signal_handler`. -/
def signalHandler (p : Process) : Signal → Process
  | .term | .int => { p with running := false }
  | .hup => { p with reload := true }

namespace Process

/-- The main thread goes on; `ok` says how a call of `daemon_init` ends. -/
def step (cfg : Config) (ok : Bool) (p : Process) : Process :=
  match p.point with
  | .init [] => { p with point := .run }
  | .init (call :: todo) =>
    if call.fatal && !ok then { p with point := .failed } else { p with point := .init todo }
  | .failed => p
  | .run => { p with point := .loopTest, running := true }
  | .loopTest => { p with point := if p.running then .collectAll else .returned }
  | .collectAll => {
      p with point := .cycle (cycleCallsAfterCollect cfg), cycles := p.cycles + 1 }
  | .cycle [] => { p with point := .sleepTest 0 }
  | .cycle (call :: todo) => {
      p with point := .cycle todo, reload := p.reload && call ≠ .reload }
  | .sleepTest i => {
      p with point := if i < cfg.intervalSec.toInt ∧ p.running then .sleep i else .loopTest }
  | .sleep i => { p with point := .sleepTest (i + 1) }
  | .returned => p

/-- The handlers have just been installed. -/
def start (cfg : Config) (web : Bool) : Process where
  point := .init (initCalls cfg web)
  running := false
  reload := false
  cycles := 0

/-- The main thread goes on, or a signal is delivered. -/
inductive Event where
  | step (ok : Bool)
  | signal (s : Signal)

def next (cfg : Config) (p : Process) : Event → Process
  | .step ok => p.step cfg ok
  | .signal s => signalHandler p s

/-- After some events. -/
abbrev after (cfg : Config) (web : Bool) (events : List Event) : Process :=
  Run.state (next cfg) (start cfg web) events

end Process

/-! ## Signals that are heeded -/

/-- `daemon_run` has set `g_running`, and no cycle is about to start; or the daemon has failed. -/
def Point.heeds : Point → Bool
  | .failed | .loopTest | .cycle _ | .sleepTest _ | .sleep _ | .returned => true
  | .init _ | .run | .collectAll => false

/-- A process that starts no cycle any more, after `n`. -/
structure Process.Stopping (n : Nat) (p : Process) : Prop where
  stopped : p.running = false
  heeds : p.point.heeds = true
  cycles : p.cycles = n

namespace Process

variable {cfg : Config} {n : Nat} {p : Process}

theorem Stopping.step (h : p.Stopping n) (ok : Bool) : (p.step cfg ok).Stopping n := by
  obtain ⟨point, running, reload, cycles⟩ := p
  obtain ⟨hstopped, hheeds, hcycles⟩ := h
  simp only at hstopped hheeds hcycles
  subst hstopped hcycles
  cases point with
  | init todo => exact absurd hheeds Bool.false_ne_true
  | run => exact absurd hheeds Bool.false_ne_true
  | collectAll => exact absurd hheeds Bool.false_ne_true
  | failed => exact ⟨rfl, rfl, rfl⟩
  | loopTest => exact ⟨rfl, rfl, rfl⟩
  | cycle todo =>
    cases todo with
    | nil => exact ⟨rfl, rfl, rfl⟩
    | cons call todo => exact ⟨rfl, rfl, rfl⟩
  | sleepTest i =>
    have hleave : ¬ (i < cfg.intervalSec.toInt ∧ false = true) := by simp
    rw [Process.step]
    simp only [if_neg hleave]
    exact ⟨rfl, rfl, rfl⟩
  | sleep i => exact ⟨rfl, rfl, rfl⟩
  | returned => exact ⟨rfl, rfl, rfl⟩

theorem Stopping.signal (h : p.Stopping n) (s : Signal) : (signalHandler p s).Stopping n := by
  cases s with
  | term => exact ⟨rfl, h.heeds, h.cycles⟩
  | int => exact ⟨rfl, h.heeds, h.cycles⟩
  | hup => exact ⟨h.stopped, h.heeds, h.cycles⟩

theorem Stopping.next (h : p.Stopping n) (e : Event) : (p.next cfg e).Stopping n := by
  cases e with
  | step ok => exact h.step ok
  | signal s => exact h.signal s

/-- Whatever happens then. -/
theorem Stopping.run (h : p.Stopping n) (events : List Event) :
    (Run.state (Process.next cfg) p events).Stopping n :=
  Run.invariant h (fun _ e hp => hp.next e) events

/-! ## Signals that are lost -/

/-- Events after which another cycle has started. -/
def GoesOn (cfg : Config) (p : Process) : Prop :=
  ∃ events, (Run.state (Process.next cfg) p events).cycles ≠ p.cycles

theorem GoesOn.of_step (ok : Bool) (hcycles : (p.step cfg ok).cycles = p.cycles)
    (h : (p.step cfg ok).GoesOn cfg) : p.GoesOn cfg := by
  obtain ⟨events, hevents⟩ := h
  exact ⟨.step ok :: events, by rwa [← hcycles]⟩

theorem goesOn_collectAll (h : p.point = .collectAll) : p.GoesOn cfg := by
  refine ⟨[.step true], ?_⟩
  rw [Run.state_cons, Run.state_nil, next, step, h]
  exact Nat.succ_ne_self _

/-- `g_running` is set, whatever it was. -/
theorem goesOn_run (h : p.point = .run) : p.GoesOn cfg := by
  have hset : p.step cfg true = { p with point := .loopTest, running := true } := by
    rw [step, h]
  have hlet : (p.step cfg true).step cfg true =
      { p with point := .collectAll, running := true } := by
    rw [hset]
    rfl
  refine .of_step true (by rw [hset]) (.of_step true (by rw [hlet, hset]) ?_)
  rw [hlet]
  exact goesOn_collectAll rfl

theorem goesOn_init {todo : List InitCall} (h : p.point = .init todo) : p.GoesOn cfg := by
  induction todo generalizing p with
  | nil =>
    have hrun : p.step cfg true = { p with point := .run } := by rw [step, h]
    refine .of_step true (by rw [hrun]) ?_
    rw [hrun]
    exact goesOn_run rfl
  | cons call todo ih =>
    have hcall : p.step cfg true = { p with point := .init todo } := by
      rw [step, h]
      simp
    refine .of_step true (by rw [hcall]) ?_
    rw [hcall]
    exact ih rfl

/-- A process goes on if its next test of `g_running` is too late. -/
theorem goesOn_of_not_heeds (h : p.point.heeds = false) : p.GoesOn cfg := by
  cases hpoint : p.point with
  | init todo => exact goesOn_init hpoint
  | run => exact goesOn_run hpoint
  | collectAll => exact goesOn_collectAll hpoint
  | _ => simp [hpoint, Point.heeds] at h

end Process

/-- **A signal stops the daemon**: no cycle starts after it, whatever happens, if and only if it
comes when `daemon_run` has set `g_running`, and not between the test of the loop and the cycle
that it has let in; or when `daemon_init` has failed. -/
theorem stop_signal_iff (cfg : Config) (web : Bool) (before : List Process.Event) (s : Signal)
    (hs : s ≠ .hup) :
    (∀ later, (Process.after cfg web (before ++ .signal s :: later)).cycles =
        (Process.after cfg web before).cycles) ↔
      (Process.after cfg web before).point.heeds = true := by
  set p := Process.after cfg web before with hp
  have hstop : signalHandler p s = { p with running := false } := by
    cases s with
    | hup => exact absurd rfl hs
    | _ => rfl
  have hlater (later : List Process.Event) :
      Process.after cfg web (before ++ .signal s :: later) =
        Run.state (Process.next cfg) { p with running := false } later := by
    rw [Process.after, Run.state_append, Run.state_cons, ← Process.after, ← hp, Process.next, hstop]
  simp only [hlater]
  by_cases hheeds : p.point.heeds = true
  · refine iff_of_true (fun later => ?_) hheeds
    have hstopping : Process.Stopping p.cycles { p with running := false } := ⟨rfl, hheeds, rfl⟩
    exact (hstopping.run later).cycles
  · refine iff_of_false (fun hnone => ?_) hheeds
    have hgoesOn : ({ p with running := false } : Process).GoesOn cfg :=
      Process.goesOn_of_not_heeds (Bool.eq_false_iff.2 hheeds)
    obtain ⟨events, hevents⟩ := hgoesOn
    exact hevents (hnone events)

/-- SIGTERM during the first cycle. -/
theorem stop_signal_iff_cycle :
    (Process.after configInitDefaults true
        (List.replicate 22 (.step true) ++ .signal .term :: List.replicate 30 (.step true))).cycles =
      (Process.after configInitDefaults true (List.replicate 22 (.step true))).cycles :=
  (stop_signal_iff configInitDefaults true (List.replicate 22 (.step true)) .term (by decide)).2
    (by decide +kernel) (List.replicate 30 (.step true))

/-- SIGTERM right after the handlers are installed. -/
theorem early_signal_lost :
    (Process.after configInitDefaults true
        ([] ++ .signal .term :: List.replicate 20 (.step true))).cycles ≠
      (Process.after configInitDefaults true []).cycles := by
  decide +kernel

end Qmem
