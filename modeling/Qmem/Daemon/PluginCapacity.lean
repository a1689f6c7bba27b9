import Qmem.Daemon.PluginSteps

/-!
# Room for a plugin

The table keeps the entry of an unloaded plugin for its path, and the check for room comes before
the search for such an entry. So whether a plugin can be loaded depends on how many paths there
have been, not on how many plugins are loaded: `load_succeeds_iff`.
-/

namespace Qmem

open CLib PluginLoader

variable {dir : CStr} {s t : PluginLoader} {path : CStr} {env : LoadEnv}

/-- The load returns 0 and leaves the library's plugin loaded. -/
def LoadSucceeds (s : PluginLoader) (path : CStr) (env : LoadEnv) (address : Nat)
    (info : PluginInfo) : Prop :=
  (pluginLoaderLoad s path env).2 = 0 ∧
    ∃ p ∈ loadedPlugins (pluginLoaderLoad s path env).1,
      p.info = info ∧ p.handle = some ⟨address, path⟩

/-- No plugin is loaded from the path, the table has not seen 64 paths, and the lookup of the
name finds no loaded plugin. -/
structure HasRoom (s : PluginLoader) (path : CStr) (info : PluginInfo) : Prop where
  notLoaded : isLoaded (findPluginByPath s path) = false
  room : s.plugins.length < maxPlugins
  nameFree : isLoaded (findPluginByName s info.name) = false

/-- The state in which a step makes its load is as good as the one it starts in. -/
theorem inv_of_loads (h : Inv dir s) {a : LoaderAction} (hl : a.loads s = some (t, path, env)) :
    Inv dir t := by
  obtain ⟨t', ht', ⟨hnone, -⟩ | ⟨path', env', hsome, -⟩⟩ := a.apply_cases s
  · rw [hl] at hnone
    cases hnone
  · rw [hl, Option.some.injEq, Prod.mk.injEq] at hsome
    rw [hsome.1]
    rcases ht' with rfl | ⟨name, rfl⟩
    · exact h
    · exact h.unload name

/-- With at most 15 plugins loaded the registry has room for one more. -/
theorem registry_room (h : Inv dir t) (hcount : pluginLoaderCount t ≤ 15) :
    t.registry.count < maxServices := by
  obtain ⟨xs, hxs, hperm⟩ := h.registered
  have hlen : xs.length = pluginLoaderCount t := by
    rw [hperm.length_eq, List.length_map, loadedPlugins, pluginLoaderCount,
      List.countP_eq_length_filter]
  rw [hxs.count_eq, hlen, maxServices]
  omega

/-- **A load of a good library succeeds** exactly when the table has room. -/
theorem loadSucceeds_iff (h : Inv dir t) (hcount : pluginLoaderCount t ≤ 15) {address : Nat}
    {info : PluginInfo} (hlibrary : env.library = some (address, some info))
    (hversion : info.apiVersion = pluginApiVersion)
    (hname : ∀ p ∈ loadedPlugins t, p.info.name ≠ info.name)
    (hinit : ¬ (info.service.hasInit ∧ env.initRet < 0)) :
    LoadSucceeds t path env address info ↔ HasRoom t path info := by
  have hsame {a : Nat} {i : PluginInfo} (hst : Stores t path env a i) : a = address ∧ i = info := by
    have heq := hst.library.symm.trans hlibrary
    simp only [Option.some.injEq, Prod.mk.injEq] at heq
    exact heq
  rcases load_cases t path env with ⟨a, i, hst, hret, hs⟩ | ⟨hno, hs⟩
  · obtain ⟨rfl, rfl⟩ := hsame hst
    refine iff_of_true ⟨hret, newPlugin path ⟨a, path⟩ i env.mtime, ?_, rfl, rfl⟩
      ⟨hst.notLoaded, hst.room, hst.nameFree⟩
    rw [loadedPlugins, hs.plugins_eq]
    exact (loaded_storePlugin t path _ hst.notLoaded rfl).mem_iff.2 List.mem_cons_self
  · refine iff_of_false ?_ fun hroom => hno address info ⟨⟨hroom.notLoaded, hroom.room, hlibrary,
      hversion, registry_room h hcount, hinit⟩, hroom.nameFree⟩
    -- nothing has changed, and no plugin that was loaded has the library's name
    rintro ⟨-, p, hp, hinfo, -⟩
    rw [loadedPlugins, hs.plugins_eq] at hp
    exact hname p hp (by rw [hinfo])

/-- The name of the `n`-th version of a plugin. -/
def versionName (n : Nat) : CStr := cstr (0x76 :: decNat n)

def versionPath (n : Nat) : CStr := .lit "/p/" ++ versionName n ++ .lit ".so"

def versionInfo (n : Nat) : PluginInfo where
  apiVersion := pluginApiVersion
  name := versionName n
  service := { object := n, name := versionName n, ops := none, enabled := true }

def versionLibrary (n : Nat) : LoadEnv where
  library := some (n, some (versionInfo n))
  initRet := 0
  mtime := 0

/-- Each version is loaded and unloaded before the next. -/
def versionHistory (n : Nat) : List LoaderAction :=
  (List.range n).flatMap fun i =>
    [.load (versionPath i) (versionLibrary i), .unload (versionName i)]

end Qmem
