import Qmem.Daemon.ConfigArgs
import Qmem.Daemon.Main

/-!
# The options of the services

The options of `[services]` were for the registration of built-in services, which has been taken
out of `daemon_init`. Services come as plugins now, and every plugin that loads is registered.
Whether a service takes part in a cycle is decided by the constant in its own structure.

Main result: `options_obeyed_iff`.
-/

namespace Qmem

open CLib

/-- A service of the repository; they all have the four callbacks. -/
def bundledService (object : Nat) (name : String) (enabled : Bool) : Service where
  object := object
  name := .lit name
  ops := some { init := true, collect := true, snapshot := true, destroy := true }
  enabled := enabled

/-- A service with its option. -/
structure ServiceOption where
  name : String
  service : Service
  option : Config → Bool

def serviceOptions : List ServiceOption := [
  ⟨"meminfo", bundledService 0 "meminfo" true, Config.svcMeminfo⟩,
  ⟨"slabinfo", bundledService 1 "slabinfo" true, Config.svcSlabinfo⟩,
  ⟨"procmem", bundledService 2 "procmem" true, Config.svcProcmem⟩,
  ⟨"heapmon", bundledService 3 "heapmon" false, Config.svcHeapmon⟩,
  ⟨"vmstat", bundledService 4 "vmstat" true, Config.svcVmstat⟩]

/-! ## A run with a configuration -/

/-- The run of a daemon with this configuration; the rest is what it meets. -/
def Config.run (cfg : Config) (run : DaemonRun) : DaemonRun :=
  { run with dir := cfg.pluginDir.text, enablePlugins := cfg.enablePlugins }

/-- The turns of `daemon_run` from a state on, with the registry of each. -/
def cyclesFrom (enablePlugins : Bool) : List DaemonTurn → PluginLoader →
    List (Registry × DaemonTurn)
  | [], _ => []
  | turn :: turns, s =>
    (s.registry, turn) :: cyclesFrom enablePlugins turns (daemonTurn enablePlugins s turn)

def cycles (run : DaemonRun) : List (Registry × DaemonTurn) :=
  cyclesFrom run.enablePlugins run.turns (daemonStart run)

/-- The calls of one of them. -/
def callsOf (cycle : Registry × DaemonTurn) : List ServiceCall :=
  cycleCalls cycle.1 cycle.2.collectRet

/-- The plugins of the services are loaded, in every cycle. -/
def AllLoaded (run : DaemonRun) : Prop :=
  ∀ cycle ∈ cycles run, ∀ o ∈ serviceOptions, o.service ∈ cycle.1.list

instance (run : DaemonRun) : Decidable (AllLoaded run) :=
  inferInstanceAs (Decidable (∀ cycle ∈ cycles run, ∀ o ∈ serviceOptions, _ ∈ _))

theorem first_cycle {run : DaemonRun} {turn : DaemonTurn} {turns : List DaemonTurn}
    (h : run.turns = turn :: turns) : ((daemonStart run).registry, turn) ∈ cycles run := by
  rw [cycles, h]
  exact List.mem_cons_self

/-- The service does what its option says: it is collected and it is in the snapshot, or neither. -/
structure Obeyed (svc : Service) (option : Bool) (calls : List ServiceCall) : Prop where
  on : option = true → (∃ ret, .collect svc ret ∈ calls) ∧ .snapshot svc ∈ calls
  off : option = false → (∀ ret, .collect svc ret ∉ calls) ∧ .snapshot svc ∉ calls

/-! ## One cycle -/

theorem mem_collectService {collectRet : Service → Int32} {svc : Service} {c : ServiceCall} :
    c ∈ collectService collectRet svc ↔
      (svc.enabled ∧ svc.hasCollect) ∧ c = .collect svc (collectRet svc) := by
  rw [collectService]
  split_ifs with h
  · rw [List.mem_singleton, and_iff_right h]
  · exact iff_of_false List.not_mem_nil fun hc => h hc.1

theorem mem_snapshotService {svc : Service} {c : ServiceCall} :
    c ∈ snapshotService svc ↔ (svc.enabled ∧ svc.hasSnapshot) ∧ c = .snapshot svc := by
  rw [snapshotService]
  split_ifs with h
  · rw [List.mem_singleton, and_iff_right h]
  · exact iff_of_false List.not_mem_nil fun hc => h hc.1

theorem collect_mem_cycleCalls {r : Registry} {collectRet : Service → Int32} {svc : Service}
    {ret : Int32} : .collect svc ret ∈ cycleCalls r collectRet ↔
      svc ∈ r.list ∧ (svc.enabled ∧ svc.hasCollect) ∧ ret = collectRet svc := by
  simp only [cycleCalls, svcManagerCollectAll, List.mem_append, List.mem_flatMap,
    mem_collectService, mem_snapshotService, ServiceCall.collect.injEq, reduceCtorEq, and_false,
    exists_false, or_false]
  constructor
  · rintro ⟨svc, hsvc, huse, rfl, rfl⟩
    exact ⟨hsvc, huse, rfl⟩
  · rintro ⟨hsvc, huse, rfl⟩
    exact ⟨svc, hsvc, huse, rfl, rfl⟩

theorem snapshot_mem_cycleCalls {r : Registry} {collectRet : Service → Int32} {svc : Service} :
    .snapshot svc ∈ cycleCalls r collectRet ↔
      svc ∈ r.list ∧ svc.enabled ∧ svc.hasSnapshot := by
  simp only [cycleCalls, svcManagerCollectAll, List.mem_append, List.mem_flatMap,
    mem_collectService, mem_snapshotService, ServiceCall.snapshot.injEq, reduceCtorEq, and_false,
    exists_false, false_or]
  constructor
  · rintro ⟨svc, hsvc, huse, rfl⟩
    exact ⟨hsvc, huse⟩
  · rintro ⟨hsvc, huse⟩
    exact ⟨svc, hsvc, huse, rfl⟩

/-- A registered service is in a cycle or not as its own structure says. -/
theorem obeyed_iff {r : Registry} {collectRet : Service → Int32} {svc : Service}
    (hsvc : svc ∈ r.list) (hcollect : svc.hasCollect = true)
    (hsnapshot : svc.hasSnapshot = true) (option : Bool) :
    Obeyed svc option (cycleCalls r collectRet) ↔ option = svc.enabled := by
  have huse {ret : Int32} : .collect svc ret ∈ cycleCalls r collectRet ↔
      svc.enabled = true ∧ ret = collectRet svc := by
    rw [collect_mem_cycleCalls, and_iff_right hsvc, and_iff_left hcollect]
  have hread : .snapshot svc ∈ cycleCalls r collectRet ↔ svc.enabled = true := by
    rw [snapshot_mem_cycleCalls, and_iff_right hsvc, and_iff_left hsnapshot]
  constructor
  · intro h
    cases option with
    | true => exact (hread.1 (h.on rfl).2).symm
    | false => exact (Bool.eq_false_of_not_eq_true fun hon => (h.off rfl).2 (hread.2 hon)).symm
  · rintro rfl
    refine ⟨fun hon => ⟨⟨_, huse.2 ⟨hon, rfl⟩⟩, hread.2 hon⟩, fun hoff => ⟨fun ret h => ?_, ?_⟩⟩
    · exact absurd (huse.1 h).1 (by rw [hoff]; exact Bool.false_ne_true)
    · intro h
      exact absurd (hread.1 h) (by rw [hoff]; exact Bool.false_ne_true)

/-! ## Every run -/

/-- The value of an option in a file, or the default. -/
def serviceGiven (file : Option Bytes) (o : ServiceOption) : Bool :=
  givenTo "services" o.name parseBool file true

theorem option_eq {files : CStr → Option Bytes} {args : List CStr} {cfg : Config}
    (h : configParseArgs files configInitDefaults args = .ok cfg) {o : ServiceOption}
    (ho : o ∈ serviceOptions) : o.option cfg = serviceGiven (fileGiven files args) o := by
  have hfile := (configParseArgs_ok h).2
  have hone {name : String} {get : Config → Bool} {set : Config → Bool → Config}
      (hset : boolSetting "services" name get set ∈ configSettings)
      (hkeep : ∀ cfg : Config, get cfg.fileOnly = get cfg)
      (hdefault : get configInitDefaults = true) :
      get cfg = givenTo "services" name parseBool (fileGiven files args) true := by
    rw [← hdefault, ← bool_configLoad hset, ← hkeep, hfile, hkeep]
  have hsettings : ∀ o ∈ serviceOptions, ∃ set,
      boolSetting "services" o.name o.option set ∈ configSettings := by
    simp only [serviceOptions, List.forall_mem_cons, List.not_mem_nil, false_imp_iff,
      implies_true, and_true]
    refine ⟨⟨({ · with svcMeminfo := · }), ?_⟩, ⟨({ · with svcSlabinfo := · }), ?_⟩,
      ⟨({ · with svcProcmem := · }), ?_⟩, ⟨({ · with svcHeapmon := · }), ?_⟩,
      ⟨({ · with svcVmstat := · }), ?_⟩⟩
    all_goals
      simp only [configSettings, configSections, List.flatMap_cons, List.flatMap_nil,
        List.cons_append, List.nil_append, List.mem_cons, true_or, or_true]
  have hfields : ∀ o ∈ serviceOptions,
      (∀ cfg : Config, o.option cfg.fileOnly = o.option cfg) ∧
        o.option configInitDefaults = true := by
    simp only [serviceOptions, List.forall_mem_cons, List.not_mem_nil, false_imp_iff,
      implies_true, and_self, Config.fileOnly, configInitDefaults]
  obtain ⟨set, hset⟩ := hsettings o ho
  exact hone hset (hfields o ho).1 (hfields o ho).2

theorem hasCallbacks : ∀ o ∈ serviceOptions,
    o.service.hasCollect = true ∧ o.service.hasSnapshot = true := by
  simp [serviceOptions, bundledService, Service.hasCollect, Service.hasSnapshot]

/-- **The options of the services** are obeyed in every cycle exactly when they say what is built
in, or when there is no cycle. -/
theorem options_obeyed_iff (files : CStr → Option Bytes) (args : List CStr) (cfg : Config)
    (h : configParseArgs files configInitDefaults args = .ok cfg) (run : DaemonRun)
    (hloaded : AllLoaded (cfg.run run)) :
    (∀ cycle ∈ cycles (cfg.run run), ∀ o ∈ serviceOptions,
        Obeyed o.service (o.option cfg) (callsOf cycle)) ↔
      run.turns = [] ∨
        ∀ o ∈ serviceOptions, serviceGiven (fileGiven files args) o = o.service.enabled := by
  have hcycle (cycle : Registry × DaemonTurn) (hcycle : cycle ∈ cycles (cfg.run run)) :
      (∀ o ∈ serviceOptions, Obeyed o.service (o.option cfg) (callsOf cycle)) ↔
        ∀ o ∈ serviceOptions, serviceGiven (fileGiven files args) o = o.service.enabled := by
    refine forall₂_congr fun o ho => ?_
    obtain ⟨hcollect, hsnapshot⟩ := hasCallbacks o ho
    rw [← option_eq h ho]
    exact obeyed_iff (hloaded cycle hcycle o ho) hcollect hsnapshot _
  cases hturns : run.turns with
  | nil =>
    have hnone : cycles (cfg.run run) = [] := by
      show cyclesFrom _ run.turns _ = []
      rw [hturns]
      rfl
    refine iff_of_true (fun cycle hmem => ?_) (.inl rfl)
    rw [hnone] at hmem
    cases hmem
  | cons turn turns =>
    have hmem := first_cycle (show (cfg.run run).turns = turn :: turns from hturns)
    rw [or_iff_right (List.cons_ne_nil turn turns)]
    constructor
    · intro hall
      exact (hcycle _ hmem).1 (hall _ hmem)
    · intro hgiven cycle hmem'
      exact (hcycle cycle hmem').2 hgiven

/-! ## A run with the five plugins -/

/-- The directory with the plugins of these services. -/
def pluginFiles (os : List ServiceOption) : List (CStr × LoadEnv) :=
  os.map fun o => (.lit (o.name ++ ".so"), {
    library := some (o.service.object, some {
      apiVersion := pluginApiVersion, name := .lit o.name, service := o.service })
    initRet := 0
    mtime := 0 })

/-- So many quiet turns; the directory and the switch come from the configuration. -/
def bundledRun (turns : Nat) : DaemonRun where
  dir := .lit ""
  enablePlugins := true
  entries := pluginFiles serviceOptions
  initOk := true
  watchOk := true
  turns := List.replicate turns { collectRet := fun _ => 0, events := [] }

def servicesArgs : List CStr := [.lit "--config", .lit "qmem.conf"]

theorem options_obeyed_noHeap : ∃ cfg,
    configParseArgs (oneFile "[services]\nheapmon = no\n") configInitDefaults servicesArgs =
        .ok cfg ∧
      ∀ cycle ∈ cycles (cfg.run (bundledRun 2)), ∀ o ∈ serviceOptions,
        Obeyed o.service (o.option cfg) (callsOf cycle) :=
  ⟨_, rfl, (options_obeyed_iff (oneFile "[services]\nheapmon = no\n") servicesArgs _ rfl
    (bundledRun 2) (by decide +kernel)).2 (.inr (by decide +kernel))⟩

/-- A service that has been switched off is collected nevertheless. -/
theorem options_not_obeyed : ∃ cfg,
    configParseArgs (oneFile "[services]\nheapmon = no\nmeminfo = no\n") configInitDefaults
        servicesArgs = .ok cfg ∧
      AllLoaded (cfg.run (bundledRun 1)) ∧
      ¬ ∀ cycle ∈ cycles (cfg.run (bundledRun 1)), ∀ o ∈ serviceOptions,
        Obeyed o.service (o.option cfg) (callsOf cycle) := by
  refine ⟨_, rfl, by decide +kernel, fun h => ?_⟩
  have hmeminfo := h _ (first_cycle rfl) _ List.mem_cons_self
  have hsame := (obeyed_iff (by decide +kernel) rfl rfl _).1 hmeminfo
  exact absurd hsame (by decide +kernel)

end Qmem
