import Qmem.Daemon.PluginSteps

/-!
# Names of plugins and services

A load refuses a plugin whose name is that of a loaded one, as far as `findPluginByName` tells:
it looks at the first entry with the name, whether that is loaded or not, and entries keep only
the first 63 bytes. The name of the service is not looked at. So names stay unique exactly as
long as the check happens to stop every library with a name that is in use.
-/

namespace Qmem

open CLib PluginLoader

/-- No two loaded plugins share a name, and no two registered services do. -/
structure NamesUnique (s : PluginLoader) : Prop where
  plugins : ((loadedPlugins s).map (·.info.name)).Nodup
  services : (s.registry.list.map (·.name)).Nodup

/-- A library that opens brings the name of a loaded plugin or of a registered service. -/
def NameTaken (s : PluginLoader) (info : PluginInfo) : Prop :=
  (∃ p ∈ loadedPlugins s, p.info.name = info.name) ∨
    ∃ svc ∈ s.registry.list, svc.name = info.service.name

/-- The check for a duplicate name stops every library that brings a name in use. -/
def NamesChecked (s : PluginLoader) (path : CStr) (env : LoadEnv) : Prop :=
  ∀ address info, Opens s path env address info → NameTaken s info →
    isLoaded (findPluginByName s info.name) = true

variable {dir : CStr} {s : PluginLoader}

theorem namesUnique_init (dir : CStr) : NamesUnique (pluginLoaderInit dir) where
  plugins := List.nodup_nil
  services := List.nodup_nil

/-- What an unload leaves is part of what there was. -/
theorem NamesUnique.unload (hinv : Inv dir s) (h : NamesUnique s) (name : CStr) :
    NamesUnique (pluginLoaderUnload s name).1 := by
  rcases unload_cases s name with ⟨i, p, hfind, hload, -, hs, -⟩ | ⟨-, hs⟩
  · obtain ⟨xs, hxs, -⟩ := hinv.registered
    have hp := (findPlugin_eq_some_iff.1 hfind).1
    constructor
    · rw [loadedPlugins, hs.plugins_eq]
      have hperm := (loaded_cleared hp hload none).map (·.info.name)
      have hnodup := hperm.nodup_iff.2 h.plugins
      rw [List.map_cons] at hnodup
      exact hnodup.of_cons
    · rw [hs.registry_eq, (hxs.unregister p.service).list_eq]
      have hservices := h.services
      rw [hxs.list_eq] at hservices
      exact hservices.sublist (List.erase_sublist.map _)
  · rw [hs]
    exact h

/-- **A load keeps names unique** exactly when the check for a duplicate does its work. -/
theorem namesUnique_load_iff (hinv : Inv dir s) (h : NamesUnique s) (path : CStr)
    (env : LoadEnv) :
    NamesUnique (pluginLoaderLoad s path env).1 ↔ NamesChecked s path env := by
  rcases load_cases s path env with ⟨address, info, hst, -, hs⟩ | ⟨hno, hs⟩
  · obtain ⟨xs, hxs, -⟩ := hinv.registered
    have hplugins : ((loadedPlugins (pluginLoaderLoad s path env).1).map (·.info.name)).Perm
        (info.name :: (loadedPlugins s).map (·.info.name)) := by
      rw [loadedPlugins, hs.plugins_eq]
      exact (loaded_storePlugin s path _ hst.notLoaded rfl).map _
    have hservices : (pluginLoaderLoad s path env).1.registry.list.map (·.name) =
        s.registry.list.map (·.name) ++ [info.service.name] := by
      rw [hs.registry_eq, (hxs.register info.service).list_eq, hxs.list_eq, List.map_append]
      rfl
    have hunique : NamesUnique (pluginLoaderLoad s path env).1 ↔ ¬ NameTaken s info := by
      have hboth : NamesUnique (pluginLoaderLoad s path env).1 ↔
          (info.name :: (loadedPlugins s).map (·.info.name)).Nodup ∧
            (s.registry.list.map (·.name) ++ [info.service.name]).Nodup := by
        rw [← hplugins.nodup_iff, ← hservices]
        exact ⟨fun hu => ⟨hu.plugins, hu.services⟩, fun hu => ⟨hu.1, hu.2⟩⟩
      rw [hboth, (List.perm_append_singleton _ _).nodup_iff, List.nodup_cons, List.nodup_cons,
        and_iff_left h.plugins, and_iff_left h.services, NameTaken, not_or, List.mem_map,
        List.mem_map]
    rw [hunique]
    constructor
    · intro hfree a i hopens htaken
      have heq := hst.library.symm.trans hopens.library
      simp only [Option.some.injEq, Prod.mk.injEq] at heq
      exact absurd (heq.2 ▸ htaken) hfree
    · intro hcheck htaken
      have hfound := hcheck address info hst.toOpens htaken
      rw [hst.nameFree] at hfound
      exact Bool.false_ne_true hfound
  · have hsame : NamesUnique (pluginLoaderLoad s path env).1 := by
      constructor
      · rw [loadedPlugins, hs.plugins_eq]
        exact h.plugins
      · rw [hs.registry_eq]
        exact h.services
    refine iff_of_true hsame fun address info hopens _ => ?_
    by_contra hfree
    exact hno address info ⟨hopens, by simpa using hfree⟩

/-- **Names stay unique** in a history exactly when, at each of its loads, the check for a
duplicate name stops the library if it brings a name in use. -/
theorem names_unique_iff (dir : CStr) (as : List LoaderAction) :
    (∀ k ≤ as.length, NamesUnique (after dir (as.take k))) ↔
      ∀ k a, as[k]? = some a → LoadOk NamesChecked (after dir (as.take k)) a :=
  after_always_iff (namesUnique_init dir) (fun _ name hinv h => h.unload hinv name)
    (fun _ path env hinv h => namesUnique_load_iff hinv h path env) as

/-! ## A dead entry hides a loaded plugin -/

/-- A library that exports a plugin `x` with the service `svc`. -/
def libraryX (object : Nat) (svc : String) : LoadEnv where
  library := some (object, some {
    apiVersion := pluginApiVersion
    name := .lit "x"
    service := { object, name := .lit svc, ops := none, enabled := true } })
  initRet := 0
  mtime := 0

/-- `a.so` is loaded and unloaded; then `b.so` and `c.so` are loaded, each with a plugin `x`. -/
def dupHistory : List LoaderAction := [
  .load (.lit "/p/a.so") (libraryX 1 "s"),
  .unload (.lit "x"),
  .load (.lit "/p/b.so") (libraryX 2 "s"),
  .load (.lit "/p/c.so") (libraryX 3 "s")]

theorem dupHistory_not_unique :
    ((loadedPlugins (after (.lit "/p") dupHistory)).map (·.info.name) =
        [.lit "x", .lit "x"]) ∧
      (after (.lit "/p") dupHistory).registry.list.map (·.name) = [.lit "s", .lit "s"] ∧
        ¬ ∀ k ≤ dupHistory.length, NamesUnique (after (.lit "/p") (dupHistory.take k)) := by
  have hnames : (loadedPlugins (after (.lit "/p") dupHistory)).map (·.info.name) =
      [.lit "x", .lit "x"] := by decide +kernel
  refine ⟨hnames, by decide +kernel, fun h => ?_⟩
  have hlast := (h 4 (by decide)).plugins
  rw [show dupHistory.take 4 = dupHistory from rfl, hnames] at hlast
  simp at hlast

end Qmem
