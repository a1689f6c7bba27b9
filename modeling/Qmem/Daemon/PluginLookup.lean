import Qmem.Daemon.PluginSteps

/-!
# Reaching a loaded plugin

Unloading by name, the watcher's events and the shutdown all look a plugin up among entries of
which some are dead. They reach it exactly when its entry is the first one under its name, and
its path, if the watcher can report it, is short enough to be kept.
-/

namespace Qmem

open CLib PluginLoader

/-! ## What should happen -/

/-- `s'` is `s` with the plugin `p` of entry `i` unloaded: its service is unregistered and its
library closed. -/
structure Unloads (s : PluginLoader) (i : Nat) (p : LoadedPlugin) (s' : PluginLoader) : Prop where
  cleared : s'.plugins = s.plugins.set i { p with handle := none, loaded := false }
  wasRegistered : p.service ∈ s.registry.list
  unregistered : s'.registry.list = s.registry.list.erase p.service
  calls : ∃ h, p.handle = some h ∧ s'.calls = s.calls ++
    (if p.service.hasDestroy then [.service (.destroy p.service)] else []) ++ [.dlclose h]

/-- The watcher reports the file that `p` was loaded from under the name `name`. -/
def FileOf (s : PluginLoader) (p : LoadedPlugin) (name : CStr) : Prop :=
  isPluginFile name = true ∧ p.handle.map (·.path) = some (pluginPath s name)

def LoaderCall.isDlopen : LoaderCall → Bool
  | .dlopen _ _ => true
  | _ => false

/-- Of the calls a step makes, the old library's `dlclose` comes before any `dlopen`. -/
def ClosesFirst (s : PluginLoader) (p : LoadedPlugin) (s' : PluginLoader) : Prop :=
  ∃ h before after, p.handle = some h ∧ s'.calls = s.calls ++ before ++ .dlclose h :: after ∧
    ∀ call ∈ before, call.isDlopen = false

/-- Every way to a loaded plugin leads to it. -/
structure LoaderWorks (s : PluginLoader) : Prop where
  unload : ∀ (i : Nat) (p : LoadedPlugin), s.plugins[i]? = some p → p.loaded = true →
    (pluginLoaderUnload s p.info.name).2 = 0 ∧
      Unloads s i p (pluginLoaderUnload s p.info.name).1
  delete : ∀ (i : Nat) (p : LoadedPlugin), s.plugins[i]? = some p → p.loaded = true →
    ∀ e name env, e.name = some name → FileOf s p name →
      (e.closeWrite || e.movedTo) = false → e.delete = true → Unloads s i p (handleEvent s e env)
  change : ∀ p ∈ s.plugins, p.loaded = true → ∀ e name env, e.name = some name →
    FileOf s p name → (e.closeWrite || e.movedTo) = true → ClosesFirst s p (handleEvent s e env)
  shutdown : ∀ p ∈ (pluginLoaderShutdown s).plugins, p.loaded = false

/-- Every loaded plugin is found at its own entry by its name. -/
def FoundByName (s : PluginLoader) : Prop :=
  ∀ (i : Nat) (p : LoadedPlugin), s.plugins[i]? = some p → p.loaded = true →
    findPluginByName s p.info.name = some (i, p)

/-- The path of a file that the watcher reports fits into the entry. -/
def PathsKept (s : PluginLoader) : Prop :=
  ∀ p ∈ s.plugins, p.loaded = true → ∀ name, FileOf s p name → (pluginPath s name).length ≤ 511

/-- Every loaded plugin is where its name and its path lead. -/
structure WithinReach (s : PluginLoader) : Prop where
  byName : FoundByName s
  byPath : PathsKept s

variable {dir : CStr} {s : PluginLoader} {i : Nat} {p : LoadedPlugin}

theorem name_of_found {name : CStr} (h : findPluginByName s name = some (i, p)) :
    p.name = name := by
  simpa using (findPlugin_eq_some_iff.1 h).2.1

/-! ## Unloading a plugin that is found -/

theorem unloads_of_found (hinv : Inv dir s) (hload : p.loaded = true) {name : CStr}
    (hfind : findPluginByName s name = some (i, p)) :
    (pluginLoaderUnload s name).2 = 0 ∧ Unloads s i p (pluginLoaderUnload s name).1 := by
  rcases unload_cases s name with ⟨j, q, hfind', -, hret, hs, hcalls⟩ | ⟨hno, -⟩
  · obtain ⟨rfl, rfl⟩ := Prod.mk.inj (Option.some.inj (hfind.symm.trans hfind'))
    have hp := (findPlugin_eq_some_iff.1 hfind).1
    obtain ⟨xs, hxs, hperm⟩ := hinv.registered
    have hmem : p.service ∈ xs := hperm.mem_iff.2
      (List.mem_map_of_mem (List.mem_filter.2 ⟨List.mem_of_getElem? hp, hload⟩))
    obtain ⟨h, hh⟩ := Option.isSome_iff_exists.1
      (hinv.faithful p (List.mem_of_getElem? hp) hload).handle_isSome
    refine ⟨hret, hs.plugins_eq, by rwa [hxs.list_eq], ?_, h, hh, ?_⟩
    · rw [hs.registry_eq, (hxs.unregister p.service).list_eq, hxs.list_eq]
    · rw [hcalls, svcManagerUnregister_mem hxs hmem, hh]
      cases p.service.hasDestroy <;> rfl
  · exact absurd (hfind ▸ hno) (by simp [isLoaded, hload])

/-- An unload that does the right thing has found the right entry. -/
theorem found_of_unloads (hp : s.plugins[i]? = some p) (hload : p.loaded = true) {name : CStr}
    (h : (pluginLoaderUnload s name).2 = 0)
    (hs : Unloads s i p (pluginLoaderUnload s name).1) :
    findPluginByName s name = some (i, p) := by
  rcases unload_cases s name with ⟨j, q, hfind, -, -, hbecomes, -⟩ | ⟨-, hfailed⟩
  · have hcleared := hs.cleared
    rw [hbecomes.plugins_eq] at hcleared
    have hget := congrArg (fun l : List LoadedPlugin => l[i]?) hcleared
    have hlt := (List.getElem?_eq_some_iff.1 hp).1
    simp only [List.getElem?_set_self hlt] at hget
    obtain ⟨rfl, -⟩ | ⟨-, hold⟩ := getElem?_cleared (findPlugin_eq_some_iff.1 hfind).1 hget
    · have hq := (findPlugin_eq_some_iff.1 hfind).1
      rw [hp] at hq
      rw [hfind, Option.some.inj hq]
    · rw [hp] at hold
      have hdead := congrArg LoadedPlugin.loaded (Option.some.inj hold)
      rw [hload] at hdead
      exact absurd hdead (by simp)
  · rw [hfailed] at h
    have hzero : (-1 : Int32) = 0 := h
    exact absurd hzero (by decide)

/-- An entry with a path that fits is the first one under that path. -/
theorem findPluginByPath_of_fileOf (hinv : Inv dir s) (hp : s.plugins[i]? = some p)
    (hload : p.loaded = true) {name : CStr} (hfile : FileOf s p name)
    (hlen : (pluginPath s name).length ≤ 511) :
    findPluginByPath s (pluginPath s name) = some (i, p) := by
  obtain ⟨h, hh, hpath⟩ := Option.map_eq_some_iff.1 hfile.2
  rw [← hpath] at hlen ⊢
  have hkept := (hinv.faithful p (List.mem_of_getElem? hp) hload).path_eq h hh
  rw [CStr.cut_eq_self hlen] at hkept
  refine findPlugin_eq_some_iff.2 ⟨hp, by simpa using hkept, fun j hj q hq => ?_⟩
  simpa using hinv.firstPath i p hp hload h hh hlen j hj q hq

/-- A path that does not fit is found nowhere. -/
theorem findPluginByPath_of_long (hinv : Inv dir s) {path : CStr} (hlen : 511 < path.length) :
    findPluginByPath s path = none := by
  refine findPlugin_eq_none_iff.2 fun q hq => ?_
  have hshort := (hinv.short q hq).1
  simp only [decide_eq_false_iff_not]
  rintro rfl
  omega

theorem unloadByPath_of_fileOf (hinv : Inv dir s) (hname : FoundByName s)
    (hp : s.plugins[i]? = some p) (hload : p.loaded = true) {name : CStr}
    (hfile : FileOf s p name) (hlen : (pluginPath s name).length ≤ 511) :
    Unloads s i p (unloadByPath s (pluginPath s name)) := by
  have hfound := hname i p hp hload
  rw [unloadByPath, findPluginByPath_of_fileOf hinv hp hload hfile hlen]
  simp only [hload, if_true]
  rw [name_of_found hfound]
  exact (unloads_of_found hinv hload hfound).2

/-! ## Clearing an entry hides no other -/

theorem findPluginByName_cleared {s' : PluginLoader} {k : Nat} {r : LoadedPlugin} {name : CStr}
    (hp : s.plugins[i]? = some p)
    (hs : s'.plugins = s.plugins.set i { p with handle := none, loaded := false })
    (hfind : findPluginByName s name = some (k, r)) (hk : k ≠ i) :
    findPluginByName s' name = some (k, r) := by
  obtain ⟨hr, hname, hbefore⟩ := findPlugin_eq_some_iff.1 hfind
  refine findPlugin_eq_some_iff.2 ⟨?_, hname, fun j hj q hq => ?_⟩
  · rw [hs, List.getElem?_set_ne hk.symm]
    exact hr
  · rw [hs] at hq
    rcases getElem?_cleared hp hq with ⟨rfl, rfl⟩ | ⟨-, hq⟩
    · exact hbefore j hj p hp
    · exact hbefore j hj q hq

theorem FoundByName.cleared {s' : PluginLoader} (h : FoundByName s) (hp : s.plugins[i]? = some p)
    (hs : s'.plugins = s.plugins.set i { p with handle := none, loaded := false }) :
    FoundByName s' := by
  intro k r hr hload
  rw [hs] at hr
  rcases getElem?_cleared hp hr with ⟨-, rfl⟩ | ⟨hk, hr⟩
  · simp at hload
  · exact findPluginByName_cleared hp hs (h k r hr hload) hk

theorem FoundByName.unload (h : FoundByName s) (name : CStr) :
    FoundByName (pluginLoaderUnload s name).1 := by
  rcases unload_cases s name with ⟨i, p, hfind, -, -, hs, -⟩ | ⟨-, hs⟩
  · exact h.cleared (findPlugin_eq_some_iff.1 hfind).1 hs.plugins_eq
  · rw [hs]
    exact h

theorem pluginPath_congr {s' : PluginLoader} (h : s'.pluginDir = s.pluginDir) (name : CStr) :
    pluginPath s' name = pluginPath s name := by
  rw [pluginPath, pluginPath, h]

theorem PathsKept.unload (h : PathsKept s) (name : CStr) :
    PathsKept (pluginLoaderUnload s name).1 := by
  rcases unload_cases s name with ⟨i, p, hfind, -, -, hs, -⟩ | ⟨-, hs⟩
  · intro q hq hload file hfile
    obtain ⟨j, hj⟩ := List.mem_iff_getElem?.1 hq
    rw [hs.plugins_eq] at hj
    rw [FileOf, pluginPath_congr hs.pluginDir_eq] at hfile
    rw [pluginPath_congr hs.pluginDir_eq]
    rcases getElem?_cleared (findPlugin_eq_some_iff.1 hfind).1 hj with ⟨-, rfl⟩ | ⟨-, hj⟩
    · simp at hload
    · exact h q (List.mem_of_getElem? hj) hload file hfile
  · rw [hs]
    exact h

/-! ## The shutdown -/

/-- The shutdown's loop has cleared the entries it has passed. -/
theorem shutdown_range (h : FoundByName s) (n : Nat) :
    let t := (List.range n).foldl shutdownPlugin s
    FoundByName t ∧ ∀ j < n, ∀ q, t.plugins[j]? = some q → q.loaded = false := by
  induction n with
  | zero => exact ⟨h, fun j hj => absurd hj (by omega)⟩
  | succ n ih =>
    rw [List.range_succ, List.foldl_append]
    set t := (List.range n).foldl shutdownPlugin s
    obtain ⟨hfound, hdead⟩ := ih
    show FoundByName (shutdownPlugin t n) ∧
      ∀ j < n + 1, ∀ q, (shutdownPlugin t n).plugins[j]? = some q → q.loaded = false
    unfold shutdownPlugin
    split
    · rename_i hnone
      refine ⟨hfound, fun j hj q hq => ?_⟩
      rcases Nat.lt_succ_iff_lt_or_eq.1 hj with hj | rfl
      · exact hdead j hj q hq
      · exact absurd (hnone.symm.trans hq) (by simp)
    rename_i p hp
    split
    · -- the entry is loaded: it is the one its name leads to
      rename_i hload
      have hfind := hfound n p hp hload
      rw [name_of_found hfind]
      rcases unload_cases t p.info.name with ⟨i, r, hfind', -, -, hs, -⟩ | ⟨hno, -⟩
      · obtain ⟨rfl, rfl⟩ := Prod.mk.inj (Option.some.inj (hfind.symm.trans hfind'))
        refine ⟨hfound.unload _, fun j hj q hq => ?_⟩
        rw [hs.plugins_eq] at hq
        rcases getElem?_cleared hp hq with ⟨-, rfl⟩ | ⟨hne, hq⟩
        · rfl
        · exact hdead j (by omega) q hq
      · exact absurd (hfind ▸ hno) (by simp [isLoaded, hload])
    · rename_i hload
      refine ⟨hfound, fun j hj q hq => ?_⟩
      rcases Nat.lt_succ_iff_lt_or_eq.1 hj with hj | rfl
      · exact hdead j hj q hq
      · rw [hp] at hq
        rw [← Option.some.inj hq]
        simpa using hload

/-- The table never shrinks while the loader shuts down. -/
theorem length_shutdown (s : PluginLoader) (n : Nat) :
    ((List.range n).foldl shutdownPlugin s).plugins.length = s.plugins.length := by
  induction n with
  | zero => rfl
  | succ n ih =>
    rw [List.range_succ, List.foldl_append, ← ih]
    set t := (List.range n).foldl shutdownPlugin s
    show (shutdownPlugin t n).plugins.length = t.plugins.length
    unfold shutdownPlugin
    split
    · rfl
    · split
      · rename_i p _ _
        rcases unload_cases t p.name with ⟨i, r, -, -, -, hs, -⟩ | ⟨-, hs⟩
        · rw [hs.plugins_eq, List.length_set]
        · rw [hs]
      · rfl

theorem shutdown_unloads (h : FoundByName s) :
    ∀ p ∈ (pluginLoaderShutdown s).plugins, p.loaded = false := by
  intro p hp
  obtain ⟨j, hj⟩ := List.mem_iff_getElem?.1 hp
  have hlt := (List.getElem?_eq_some_iff.1 hj).1
  have hfound : FoundByName { s with watching := false } := h
  rw [pluginLoaderShutdown, length_shutdown] at hlt
  exact (shutdown_range hfound s.plugins.length).2 j hlt p hj

/-! ## The loader works where entries are found -/

/-- **Every way to a loaded plugin leads to it** exactly when its name finds its own entry and
its path fits. -/
theorem loaderWorks_iff (hinv : Inv dir s) :
    LoaderWorks s ↔ WithinReach s := by
  constructor
  · intro h
    have hname : FoundByName s := fun i p hp hload =>
      found_of_unloads hp hload (h.unload i p hp hload).1 (h.unload i p hp hload).2
    refine ⟨hname, fun p hp hload name hfile => ?_⟩
    obtain ⟨i, hi⟩ := List.mem_iff_getElem?.1 hp
    by_contra hlong
    have hnone := findPluginByPath_of_long hinv (not_le.1 hlong)
    have hdeleted := (h.delete i p hi hload
      { closeWrite := false, movedTo := false, delete := true, name := some name } name
      { library := none, initRet := 0, mtime := 0 } rfl hfile rfl rfl).cleared
    have hsame : handleEvent s
        { closeWrite := false, movedTo := false, delete := true, name := some name }
        { library := none, initRet := 0, mtime := 0 } = s := by
      simp [handleEvent, hfile.1, unloadByPath, hnone]
    rw [hsame] at hdeleted
    have hget := congrArg (fun l : List LoadedPlugin => l[i]?) hdeleted
    simp only [hi, List.getElem?_set_self (List.getElem?_eq_some_iff.1 hi).1] at hget
    have hdead := congrArg LoadedPlugin.loaded (Option.some.inj hget)
    rw [hload] at hdead
    exact absurd hdead (by simp)
  · rintro ⟨hname, hpath⟩
    have hbyPath (i : Nat) (p : LoadedPlugin) (hp : s.plugins[i]? = some p)
        (hload : p.loaded = true) (name : CStr) (hfile : FileOf s p name) :
        Unloads s i p (unloadByPath s (pluginPath s name)) :=
      unloadByPath_of_fileOf hinv hname hp hload hfile
        (hpath p (List.mem_of_getElem? hp) hload name hfile)
    refine ⟨fun i p hp hload => unloads_of_found hinv hload (hname i p hp hload),
      fun i p hp hload e name env he hfile hchange hdelete => ?_,
      fun p hp hload e name env he hfile hchange => ?_, shutdown_unloads hname⟩
    · have hevent : handleEvent s e env = unloadByPath s (pluginPath s name) := by
        simp [handleEvent, he, hfile.1, hchange, hdelete]
      rw [hevent]
      exact hbyPath i p hp hload name hfile
    · obtain ⟨i, hi⟩ := List.mem_iff_getElem?.1 hp
      obtain ⟨h, hh, hcalls⟩ := (hbyPath i p hi hload name hfile).calls
      have hevent : handleEvent s e env = (pluginLoaderLoad
          (unloadByPath s (pluginPath s name)) (pluginPath s name) env).1 := by
        simp [handleEvent, he, hfile.1, hchange, pluginLoaderReload]
      have hmore : (unloadByPath s (pluginPath s name)).calls <+: (handleEvent s e env).calls := by
        rw [hevent]
        rcases load_cases (unloadByPath s (pluginPath s name)) (pluginPath s name) env with
          ⟨_, _, -, -, hs⟩ | ⟨-, hs⟩
        · exact hs.calls
        · exact hs.calls
      obtain ⟨post, hpost⟩ := hmore
      refine ⟨h, if p.service.hasDestroy then [.service (.destroy p.service)] else [], post, hh,
        ?_, ?_⟩
      · rw [← hpost, hcalls]
        simp
      · cases p.service.hasDestroy <;> simp [LoaderCall.isDlopen]

/-! ## Loads that keep it so -/

/-- The plugin's name fits into its entry and leads to it, and so does the file's path if the
watcher can report it. -/
structure StoresFound (s : PluginLoader) (path : CStr) (info : PluginInfo) : Prop where
  nameFits : info.name.length ≤ 63
  nameFirst : ∀ j < slot s path, ∀ q : LoadedPlugin, s.plugins[j]? = some q → q.name ≠ info.name
  pathFits : ∀ name, isPluginFile name = true → path = pluginPath s name → path.length ≤ 511

def LookupKept (s : PluginLoader) (path : CStr) (env : LoadEnv) : Prop :=
  ∀ address info, Stores s path env address info → StoresFound s path info

section

variable {t : PluginLoader} {path : CStr} {address : Nat} {info : PluginInfo} {mtime : Int64}

theorem WithinReach.of_plugins_eq (h : WithinReach s) (hplugins : t.plugins = s.plugins)
    (hdir : t.pluginDir = s.pluginDir) : WithinReach t := by
  constructor
  · intro i p hp hload
    rw [hplugins] at hp
    have hfind := h.byName i p hp hload
    rwa [findPluginByName, findPlugin, hplugins]
  · intro p hp hload file hfile
    rw [hplugins] at hp
    rw [FileOf, pluginPath_congr hdir] at hfile
    rw [pluginPath_congr hdir]
    exact h.byPath p hp hload file hfile

variable (hplugins : t.plugins =
    storePlugin s (findPluginByPath s path) (newPlugin path ⟨address, path⟩ info mtime))
  (hdir : t.pluginDir = s.pluginDir)

include hplugins hdir

theorem WithinReach.storesFound (h : WithinReach t) : StoresFound s path info := by
  set new := newPlugin path ⟨address, path⟩ info mtime with hnew
  have hget (j : Nat) : t.plugins[j]? = if j = slot s path then some new else s.plugins[j]? := by
    rw [hplugins, getElem?_storePlugin]
  have hat : t.plugins[slot s path]? = some new := by rw [hget, if_pos rfl]
  have hinfo : new.info = info := rfl
  have hfound := h.byName (slot s path) new hat rfl
  have hfits : info.name.cut 63 = info.name := name_of_found hfound
  refine ⟨?_, fun j hj q hq => ?_, fun file hfile heq => ?_⟩
  · rw [← hfits]
    exact info.name.length_cut_le 63
  · have hother : t.plugins[j]? = some q := by rwa [hget, if_neg (by omega)]
    have hbefore := (findPlugin_eq_some_iff.1 hfound).2.2 j hj q hother
    simpa [hinfo] using hbefore
  · have hpath := pluginPath_congr hdir file
    have hkept := h.byPath new (List.mem_of_getElem? hat) rfl file
      ⟨hfile, by rw [hpath, ← heq]; rfl⟩
    rwa [hpath, ← heq] at hkept

theorem StoresFound.withinReach (hok : StoresFound s path info) (h : WithinReach s)
    (hfree : isLoaded (findPluginByName s info.name) = false) : WithinReach t := by
  set new := newPlugin path ⟨address, path⟩ info mtime with hnew
  have hget (j : Nat) : t.plugins[j]? = if j = slot s path then some new else s.plugins[j]? := by
    rw [hplugins, getElem?_storePlugin]
  have hat : t.plugins[slot s path]? = some new := by rw [hget, if_pos rfl]
  have hinfo : new.info = info := rfl
  have hname : new.name = info.name := CStr.cut_eq_self hok.nameFits
  constructor
  · intro k r hr hload
    rw [hget] at hr
    split at hr
    · rename_i hk
      obtain rfl := Option.some.inj hr
      refine findPlugin_eq_some_iff.2 ⟨hk ▸ hat, by simpa [hinfo] using hname,
        fun j hj q hq => ?_⟩
      rw [hget, if_neg (by omega)] at hq
      simpa [hinfo] using hok.nameFirst j (by omega) q hq
    · rename_i hk
      have hfind := h.byName k r hr hload
      obtain ⟨-, hrname, hbefore⟩ := findPlugin_eq_some_iff.1 hfind
      refine findPlugin_eq_some_iff.2
        ⟨by rw [hget, if_neg hk]; exact hr, hrname, fun j hj q hq => ?_⟩
      rw [hget] at hq
      split at hq
      · -- the new entry carries another name: otherwise the check had found `r`
        obtain rfl := Option.some.inj hq
        by_contra hclash
        have heq : info.name = r.info.name := by
          rw [← hname]
          simpa using hclash
        rw [heq, hfind] at hfree
        exact absurd hfree (by simp [isLoaded, hload])
      · exact hbefore j hj q hq
  · intro q hq hload file hfile
    obtain ⟨j, hj⟩ := List.mem_iff_getElem?.1 hq
    rw [hget] at hj
    rw [FileOf, pluginPath_congr hdir] at hfile
    rw [pluginPath_congr hdir]
    split at hj
    · obtain rfl := Option.some.inj hj
      have heq : path = pluginPath s file := Option.some.inj hfile.2
      rw [← heq]
      exact hok.pathFits file hfile.1 heq
    · exact h.byPath q (List.mem_of_getElem? hj) hload file hfile

end

/-- **A load keeps every plugin within reach** exactly when the one it stores is. -/
theorem withinReach_load_iff (h : WithinReach s) (path : CStr) (env : LoadEnv) :
    WithinReach (pluginLoaderLoad s path env).1 ↔ LookupKept s path env := by
  rcases load_cases s path env with ⟨address, info, hst, -, hs⟩ | ⟨hno, hs⟩
  · constructor
    · intro hreach a i hst'
      have hsame := hst.library.symm.trans hst'.library
      simp only [Option.some.injEq, Prod.mk.injEq] at hsame
      rw [← hsame.2]
      exact hreach.storesFound hs.plugins_eq hs.pluginDir_eq
    · intro hok
      exact (hok address info hst).withinReach hs.plugins_eq hs.pluginDir_eq h hst.nameFree
  · exact iff_of_true (h.of_plugins_eq hs.plugins_eq hs.pluginDir_eq)
      fun address info hst => absurd hst (hno address info)

/-- **Every loaded plugin stays within reach** of an unload, of the events for its file and of
the shutdown, in every state of a history, exactly when each load of it stores its plugin where
the plugin's name and path lead. -/
theorem loader_works_iff (dir : CStr) (as : List LoaderAction) :
    (∀ k ≤ as.length, LoaderWorks (after dir (as.take k))) ↔
      ∀ k a, as[k]? = some a → LoadOk LookupKept (after dir (as.take k)) a := by
  have hiff (k : Nat) : LoaderWorks (after dir (as.take k)) ↔
      WithinReach (after dir (as.take k)) := loaderWorks_iff (inv_after dir (as.take k))
  simp only [hiff]
  have hstart : WithinReach (pluginLoaderInit dir) :=
    ⟨fun i p hp => absurd hp (by simp [pluginLoaderInit]),
      fun p hp => absurd hp (by simp [pluginLoaderInit])⟩
  exact after_always_iff hstart (fun _ name _ h => ⟨h.byName.unload name, h.byPath.unload name⟩)
    (fun _ path env _ h => withinReach_load_iff h path env) as

/-! ## A dead entry keeps an unload from its plugin -/

/-- A library that exports the plugin `x`. -/
def libraryOfX (object : Nat) : LoadEnv where
  library := some (object, some {
    apiVersion := pluginApiVersion
    name := .lit "x"
    service := { object, name := .lit "s", ops := none, enabled := true } })
  initRet := 0
  mtime := 0

/-- `a.so` is loaded and unloaded; then `b.so` is loaded, with a plugin of the same name. -/
def movedHistory : List LoaderAction := [
  .load (.lit "/p/a.so") (libraryOfX 1),
  .unload (.lit "x"),
  .load (.lit "/p/b.so") (libraryOfX 2)]

/-- The plugin from `b.so` is loaded, but neither an unload by its name, nor the deletion of its
file, nor the shutdown unloads it, and a change opens the new library beside it. -/
theorem movedHistory_out_of_reach :
    let s := after (.lit "/p") movedHistory
    (loadedPlugins s).map (·.path) = [.lit "/p/b.so"] ∧
      (pluginLoaderUnload s (.lit "x")).2 = -1 ∧
      (loadedPlugins (pluginLoaderShutdown s)).map (·.path) = [.lit "/p/b.so"] ∧
      ¬ ∀ k ≤ movedHistory.length, LoaderWorks (after (.lit "/p") (movedHistory.take k)) := by
  intro s
  have hshutdown : (loadedPlugins (pluginLoaderShutdown s)).map (·.path) = [.lit "/p/b.so"] := by
    decide +kernel
  refine ⟨by decide +kernel, by decide +kernel, hshutdown, fun h => ?_⟩
  have hnone : loadedPlugins (pluginLoaderShutdown s) = [] :=
    List.filter_eq_nil_iff.2 fun p hp => by simpa using (h 3 (by decide)).shutdown p hp
  rw [hnone] at hshutdown
  exact absurd hshutdown (by simp)

end Qmem
