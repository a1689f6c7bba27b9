import Qmem.Daemon.PluginSteps

/-!
# The daemon from start to shutdown (`daemon/daemon.c`)

What the daemon does to plugins and services: it loads the plugin directory and starts the
watcher, it collects and takes snapshots in cycles with the watcher's events between them, and it
shuts both down. A run is a sequence of `DaemonStep`s; `finished_eq` says that the daemon's own
order of doing things is one.
-/

namespace Qmem

open CLib

/-! ## Steps -/

/-- What the daemon can do between start and shutdown. -/
inductive DaemonStep where
  | loader (a : LoaderAction)
  | startWatcher (initOk watchOk : Bool)
  | cycle (collectRet : Service → Int32)

/-- The calls a cycle makes: `svc_manager_collect_all`, then `svc_manager_snapshot_all`. -/
def cycleCalls (r : Registry) (collectRet : Service → Int32) : List ServiceCall :=
  (svcManagerCollectAll r collectRet).1 ++ r.list.flatMap snapshotService

/-- The part of a turn of `daemon_run` before the check for updates. -/
def runCycle (s : PluginLoader) (collectRet : Service → Int32) : PluginLoader :=
  { s with calls := s.calls ++ (cycleCalls s.registry collectRet).map LoaderCall.service }

def DaemonStep.apply (s : PluginLoader) : DaemonStep → PluginLoader
  | .loader a => a.apply s
  | .startWatcher initOk watchOk => (pluginLoaderStartWatcher s initOk watchOk).1
  | .cycle collectRet => runCycle s collectRet

/-- The state after some steps. -/
abbrev daemonState (dir : CStr) (steps : List DaemonStep) : PluginLoader :=
  Run.state DaemonStep.apply (pluginLoaderInit dir) steps

/-- `daemon_shutdown`: the plugins, then the services that are left. -/
def daemonShutdown (enablePlugins : Bool) (s : PluginLoader) : PluginLoader :=
  let s := if enablePlugins then pluginLoaderShutdown s else s
  let (registry, calls) := svcManagerShutdown s.registry
  { s with registry, calls := s.calls ++ calls.map LoaderCall.service }

/-! ## The daemon's own order -/

/-- One turn of the loop of `daemon_run`, with what it meets. -/
structure DaemonTurn where
  collectRet : Service → Int32
  events : List (InotifyEvent × LoadEnv)

/-- What a daemon meets: the configuration, the plugin directory, the watcher, the turns. -/
structure DaemonRun where
  dir : CStr
  enablePlugins : Bool
  entries : List (CStr × LoadEnv)
  initOk : Bool
  watchOk : Bool
  turns : List DaemonTurn

/-- The end of `daemon_init`. -/
def daemonStart (run : DaemonRun) : PluginLoader :=
  if run.enablePlugins then
    (pluginLoaderStartWatcher (pluginLoaderLoadAll (pluginLoaderInit run.dir) (some run.entries)).1
      run.initOk run.watchOk).1
  else pluginLoaderInit run.dir

def daemonTurn (enablePlugins : Bool) (s : PluginLoader) (turn : DaemonTurn) : PluginLoader :=
  let s := runCycle s turn.collectRet
  if enablePlugins then pluginLoaderCheckUpdates s turn.events else s

/-- `daemon_run`. -/
def daemonRun (run : DaemonRun) : PluginLoader :=
  run.turns.foldl (daemonTurn run.enablePlugins) (daemonStart run)

namespace DaemonRun

/-- The loads of `plugin_loader_load_all`. -/
def loadSteps (run : DaemonRun) : List DaemonStep :=
  (run.entries.filter fun entry => isPluginFile entry.1).map fun entry =>
    .loader (.load (pluginPath (pluginLoaderInit run.dir) entry.1) entry.2)

def turnSteps (run : DaemonRun) (turn : DaemonTurn) : List DaemonStep :=
  .cycle turn.collectRet ::
    (if run.enablePlugins ∧ run.initOk ∧ run.watchOk then
      turn.events.map fun e => .loader (.event e.1 e.2)
    else [])

/-- The steps the daemon takes. -/
def steps (run : DaemonRun) : List DaemonStep :=
  (if run.enablePlugins then run.loadSteps ++ [.startWatcher run.initOk run.watchOk] else []) ++
    run.turns.flatMap run.turnSteps

end DaemonRun

/-- A loader's step leaves the directory and the watcher alone. -/
theorem LoaderAction.apply_frame (s : PluginLoader) (a : LoaderAction) :
    (a.apply s).pluginDir = s.pluginDir ∧ (a.apply s).watching = s.watching := by
  have hload (t : PluginLoader) (path : CStr) (env : LoadEnv) :
      (pluginLoaderLoad t path env).1.pluginDir = t.pluginDir ∧
        (pluginLoaderLoad t path env).1.watching = t.watching := by
    rcases load_cases t path env with ⟨_, _, -, -, hs⟩ | ⟨-, hs⟩
    · exact ⟨hs.pluginDir_eq, hs.watching_eq⟩
    · exact ⟨hs.pluginDir_eq, hs.watching_eq⟩
  obtain ⟨t, ht, hstep⟩ := a.apply_cases s
  have hunload : t.pluginDir = s.pluginDir ∧ t.watching = s.watching := by
    rcases ht with rfl | ⟨name, rfl⟩
    · exact ⟨rfl, rfl⟩
    · rcases unload_cases s name with ⟨_, _, -, -, -, hs, -⟩ | ⟨-, hs⟩
      · exact ⟨hs.pluginDir_eq, hs.watching_eq⟩
      · rw [hs]
        exact ⟨rfl, rfl⟩
  rcases hstep with ⟨-, hs⟩ | ⟨path, env, -, hs⟩
  · rw [hs]
    exact hunload
  · rw [hs]
    exact ⟨(hload t path env).1.trans hunload.1, (hload t path env).2.trans hunload.2⟩

/-- The body of the loop of `plugin_loader_load_all`. -/
def loadEntry (acc : PluginLoader × Nat) (entry : CStr × LoadEnv) : PluginLoader × Nat :=
  if isPluginFile entry.1 then
    let load := pluginLoaderLoad acc.1 (pluginPath acc.1 entry.1) entry.2
    (load.1, if load.2 = 0 then acc.2 + 1 else acc.2)
  else acc

theorem loadAll_eq (s : PluginLoader) (entries : List (CStr × LoadEnv)) (loaded : Nat) :
    (entries.foldl loadEntry (s, loaded)).1 =
      Run.state DaemonStep.apply s ((entries.filter fun entry => isPluginFile entry.1).map
        fun entry => .loader (.load (pluginPath s entry.1) entry.2)) := by
  induction entries generalizing s loaded with
  | nil => rfl
  | cons entry entries ih =>
    rw [List.foldl_cons]
    cases hfile : isPluginFile entry.1 with
    | false =>
      rw [List.filter_cons_of_neg (by simp [hfile]), ← ih s loaded]
      simp [loadEntry, hfile]
    | true =>
      rw [List.filter_cons_of_pos (by simp [hfile]), List.map_cons, Run.state_cons]
      set s' := DaemonStep.apply s (.loader (.load (pluginPath s entry.1) entry.2)) with hs'
      have hpath : pluginPath s' = pluginPath s := by
        funext other
        rw [pluginPath, pluginPath, hs', DaemonStep.apply, (LoaderAction.apply_frame s _).1]
      have hentry : ∃ n, loadEntry (s, loaded) entry = (s', n) := by
        rw [loadEntry, if_pos hfile]
        exact ⟨_, rfl⟩
      obtain ⟨n, hn⟩ := hentry
      rw [hn, ih s' n, hpath]

theorem checkUpdates_eq (s : PluginLoader) (events : List (InotifyEvent × LoadEnv)) :
    pluginLoaderCheckUpdates s events = Run.state DaemonStep.apply s
      (if s.watching then events.map fun e => .loader (.event e.1 e.2) else []) := by
  unfold pluginLoaderCheckUpdates
  split
  · rw [Run.state, List.foldl_map]
    rfl
  · rfl

theorem watching_loader (s : PluginLoader) (as : List LoaderAction) :
    (Run.state DaemonStep.apply s (as.map .loader)).watching = s.watching := by
  induction as generalizing s with
  | nil => rfl
  | cons a as ih =>
    rw [List.map_cons, Run.state_cons, ih]
    exact (LoaderAction.apply_frame s a).2

/-- A turn of the daemon takes its steps, and leaves the watcher as it is. -/
theorem daemonTurn_eq (run : DaemonRun) (turn : DaemonTurn) (s : PluginLoader)
    (hs : run.enablePlugins = true → s.watching = (run.initOk && run.watchOk)) :
    daemonTurn run.enablePlugins s turn = Run.state DaemonStep.apply s (run.turnSteps turn) ∧
      (daemonTurn run.enablePlugins s turn).watching = s.watching := by
  rw [DaemonRun.turnSteps, Run.state_cons]
  cases hen : run.enablePlugins with
  | false => exact ⟨rfl, rfl⟩
  | true =>
    have hevents : daemonTurn true s turn = Run.state DaemonStep.apply (runCycle s turn.collectRet)
        (if s.watching then turn.events.map fun e => .loader (.event e.1 e.2) else []) :=
      checkUpdates_eq _ _
    have hwatching : (runCycle s turn.collectRet).watching = s.watching := rfl
    rw [hevents, hs hen]
    constructor
    · simp only [true_and, Bool.and_eq_true]
      rfl
    · split
      · have hkept := watching_loader (runCycle s turn.collectRet)
          (turn.events.map fun e => .event e.1 e.2)
        rw [List.map_map] at hkept
        exact hkept.trans (hs hen)
      · exact hs hen

/-- **The daemon takes the steps of its run.** -/
theorem daemonRun_eq (run : DaemonRun) : daemonRun run = daemonState run.dir run.steps := by
  have hstart : daemonStart run = daemonState run.dir (if run.enablePlugins then
      run.loadSteps ++ [.startWatcher run.initOk run.watchOk] else []) := by
    unfold daemonStart
    split
    · rw [daemonState, Run.state_append, DaemonRun.loadSteps, ← loadAll_eq _ _ 0]
      rfl
    · rfl
  have hwatching : run.enablePlugins = true →
      (daemonStart run).watching = (run.initOk && run.watchOk) := by
    intro hen
    unfold daemonStart
    rw [if_pos hen, pluginLoaderStartWatcher]
    cases run.initOk <;> cases run.watchOk <;> rfl
  have hturns (turns : List DaemonTurn) (s : PluginLoader)
      (hs : run.enablePlugins = true → s.watching = (run.initOk && run.watchOk)) :
      turns.foldl (daemonTurn run.enablePlugins) s =
        Run.state DaemonStep.apply s (turns.flatMap run.turnSteps) := by
    induction turns generalizing s with
    | nil => rfl
    | cons turn turns ih =>
      obtain ⟨hturn, hkept⟩ := daemonTurn_eq run turn s hs
      rw [List.foldl_cons, List.flatMap_cons, Run.state_append, ← hturn]
      exact ih _ fun hen => hkept.trans (hs hen)
  rw [daemonRun, DaemonRun.steps, daemonState, Run.state_append, hturns _ _ hwatching, hstart]

end Qmem
