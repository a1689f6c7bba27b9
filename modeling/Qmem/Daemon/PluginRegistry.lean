import Qmem.Daemon.PluginSteps

/-!
# The registry and the table in step

Whatever happens to the loader, also when names collide and lookups go to the wrong entry, the
services in the registry are those of the loaded plugins. A load that fails changes neither.
-/

namespace Qmem

open CLib PluginLoader

variable {dir : CStr} {s : PluginLoader}

/-- The registry has no more services than it has room for. -/
def RegistryFits (s : PluginLoader) : Prop := s.registry.count ≤ maxServices

theorem registryFits_load (h : RegistryFits s) (path : CStr) (env : LoadEnv) :
    RegistryFits (pluginLoaderLoad s path env).1 := by
  unfold RegistryFits
  rcases load_cases s path env with ⟨address, info, hst, -, hs⟩ | ⟨-, hs⟩
  · rw [hs.registry_eq]
    exact hst.registryRoom
  · rw [hs.registry_eq]
    exact h

theorem registryFits_unload (h : RegistryFits s) (name : CStr) :
    RegistryFits (pluginLoaderUnload s name).1 := by
  rcases unload_cases s name with ⟨i, p, -, -, -, hs, -⟩ | ⟨-, hs⟩
  · have hcount : (svcManagerUnregister s.registry p.service).1.count ≤ s.registry.count := by
      unfold svcManagerUnregister
      split
      · exact le_rfl
      · exact Nat.sub_le _ _
    unfold RegistryFits
    rw [hs.registry_eq]
    exact hcount.trans h
  · rw [hs]
    exact h

theorem registryFits_apply (h : RegistryFits s) (a : LoaderAction) : RegistryFits (a.apply s) := by
  obtain ⟨t, ht, hstep⟩ := a.apply_cases s
  have hfits : RegistryFits t := by
    rcases ht with rfl | ⟨name, rfl⟩
    · exact h
    · exact registryFits_unload h name
  rcases hstep with ⟨-, hs⟩ | ⟨path, env, -, hs⟩
  · rw [hs]
    exact hfits
  · rw [hs]
    exact registryFits_load hfits path env

theorem registryFits_after (dir : CStr) (as : List LoaderAction) :
    RegistryFits (after dir as) := by
  have hstart : RegistryFits (pluginLoaderInit dir) := Nat.zero_le _
  exact Run.invariant hstart (fun _ a h => registryFits_apply h a) as

/-- Below the count there is no NULL. -/
theorem Registry.Holds.services_isSome {r : Registry} {xs : List Service} (h : r.Holds xs) {i : Nat}
    (hi : i < r.count) : (r.services i).isSome := by
  rw [h.count_eq] at hi
  rw [h.services_eq i hi, List.getElem?_eq_getElem hi]
  rfl

/-- A load that fails leaves the table and the registry as they were. -/
theorem load_failed {path : CStr} {env : LoadEnv} (h : (pluginLoaderLoad s path env).2 ≠ 0) :
    (pluginLoaderLoad s path env).1.registry = s.registry ∧
      (pluginLoaderLoad s path env).1.plugins = s.plugins := by
  rcases load_cases s path env with ⟨address, info, -, hret, -⟩ | ⟨-, hs⟩
  · exact absurd hret h
  · exact ⟨hs.registry_eq, hs.plugins_eq⟩

/-- **The registry holds the services of the loaded plugins** in every state of a history, within
its bounds and without a gap; and a load that fails, whatever state it starts in, changes neither
the registry nor the entries. -/
theorem registry_in_step (dir : CStr) (as : List LoaderAction) :
    let s := after dir as
    s.registry.list.Perm ((loadedPlugins s).map (·.service)) ∧
      s.registry.count ≤ maxServices ∧
      (∀ i < s.registry.count, (s.registry.services i).isSome) ∧
      ∀ t path env, (pluginLoaderLoad t path env).2 ≠ 0 →
        (pluginLoaderLoad t path env).1.registry = t.registry ∧
          (pluginLoaderLoad t path env).1.plugins = t.plugins := by
  intro s
  obtain ⟨xs, hxs, hperm⟩ := (inv_after dir as).registered
  refine ⟨?_, registryFits_after dir as, fun i hi => hxs.services_isSome hi,
    fun t path env hret => load_failed hret⟩
  rw [hxs.list_eq]
  exact hperm

end Qmem
