import Qmem.Daemon.PluginCapacity
import Qmem.Lib.PoolTable

/-!
# Tables in which every entry is found

If no two entries have the same path and no two have the same name, both look-ups lead to the only
entry there is. Unloading what is loaded from a path then works, and so does loading a plugin
whose name belongs to the path.
-/

namespace Qmem

open CLib

namespace PluginLoader

/-- The paths of the entries with their names. -/
def keys (s : PluginLoader) : List (CStr × CStr) := s.plugins.map fun p => (p.path, p.name)

/-- A plugin is loaded from the path. -/
def LoadedFrom (s : PluginLoader) (path : CStr) : Prop :=
  ∃ p ∈ s.plugins, p.path = path ∧ p.loaded = true

/-- No path and no name is there twice. -/
structure Tidy (s : PluginLoader) : Prop where
  paths : (s.keys.map Prod.fst).Nodup
  names : (s.keys.map Prod.snd).Nodup

variable {dir path : CStr} {s t : PluginLoader} {i j : Nat} {p q : LoadedPlugin}

theorem getElem?_keys (hp : s.plugins[i]? = some p) : s.keys[i]? = some (p.path, p.name) := by
  rw [keys, List.getElem?_map, hp, Option.map_some]

theorem Tidy.eq_of_path (h : s.Tidy) (hp : s.plugins[i]? = some p) (hq : s.plugins[j]? = some q)
    (heq : p.path = q.path) : i = j :=
  PoolTable.index_of_key h.paths (getElem?_keys hq) (getElem?_keys hp) heq

theorem Tidy.eq_of_name (h : s.Tidy) (hp : s.plugins[i]? = some p) (hq : s.plugins[j]? = some q)
    (heq : p.name = q.name) : i = j :=
  PoolTable.index_of_key h.names (getElem?_keys hq) (getElem?_keys hp) heq

theorem Tidy.findByPath (h : s.Tidy) (hp : s.plugins[i]? = some p) :
    findPluginByPath s p.path = some (i, p) := by
  refine findPlugin_eq_some_iff.2 ⟨hp, by simp, fun j hj q hq => ?_⟩
  rw [decide_eq_false_iff_not]
  intro heq
  exact absurd (h.eq_of_path hq hp heq) (Nat.ne_of_lt hj)

theorem Tidy.findByName (h : s.Tidy) (hp : s.plugins[i]? = some p) :
    findPluginByName s p.name = some (i, p) := by
  refine findPlugin_eq_some_iff.2 ⟨hp, by simp, fun j hj q hq => ?_⟩
  rw [decide_eq_false_iff_not]
  intro heq
  exact absurd (h.eq_of_name hq hp heq) (Nat.ne_of_lt hj)

/-- The entry of a path. -/
theorem Tidy.loadedFrom_iff (h : s.Tidy) (hp : s.plugins[i]? = some p) :
    s.LoadedFrom p.path ↔ p.loaded = true := by
  refine ⟨?_, fun hload => ⟨p, List.mem_of_getElem? hp, rfl, hload⟩⟩
  rintro ⟨q, hq, hpath, hload⟩
  obtain ⟨j, hj⟩ := List.mem_iff_getElem?.1 hq
  rw [h.eq_of_path hj hp hpath, hp, Option.some.injEq] at hj
  rwa [hj]

theorem loadedFrom_iff_mem : s.LoadedFrom path ↔ ∃ p ∈ loadedPlugins s, p.path = path := by
  simp only [LoadedFrom, loadedPlugins, List.mem_filter, and_assoc]
  exact exists_congr fun p => and_congr_right fun _ => and_comm

theorem not_loadedFrom_of_none (h : findPluginByPath s path = none) : ¬ s.LoadedFrom path := by
  rintro ⟨p, hp, hpath, -⟩
  simpa [hpath] using findPlugin_eq_none_iff.1 h p hp

theorem loadedFrom_congr (h : t.plugins = s.plugins) : t.LoadedFrom path ↔ s.LoadedFrom path := by
  rw [LoadedFrom, LoadedFrom, h]

theorem keys_congr (h : t.plugins = s.plugins) : t.keys = s.keys := by
  rw [keys, keys, h]

theorem set_of_getElem? {α : Type} {l : List α} {a : α} (h : l[i]? = some a) : l.set i a = l := by
  obtain ⟨hlt, rfl⟩ := List.getElem?_eq_some_iff.1 h
  exact List.set_getElem_self hlt

/-! ## Unloading -/

/-- What is loaded from the path is unloaded, and nothing else changes. -/
theorem Tidy.unloadByPath (h : s.Tidy) (path : CStr) :
    (unloadByPath s path).keys = s.keys ∧
      ∀ other, (unloadByPath s path).LoadedFrom other ↔ s.LoadedFrom other ∧ other ≠ path := by
  rw [Qmem.unloadByPath]
  cases hfind : findPluginByPath s path with
  | none =>
    refine ⟨rfl, fun other => ⟨fun hload => ⟨hload, ?_⟩, fun hload => hload.1⟩⟩
    rintro rfl
    exact not_loadedFrom_of_none hfind hload
  | some found =>
    obtain ⟨i, p⟩ := found
    obtain ⟨hp, hpath, -⟩ := findPlugin_eq_some_iff.1 hfind
    obtain rfl : p.path = path := by simpa using hpath
    by_cases hload : p.loaded = true
    · simp only [if_pos hload]
      rcases unload_cases s p.name with ⟨j, q, hname, -, -, hs, -⟩ | ⟨hno, -⟩
      · obtain ⟨rfl, rfl⟩ := Prod.mk.inj (Option.some.inj ((h.findByName hp).symm.trans hname))
        have hkeys : (pluginLoaderUnload s p.name).1.keys = s.keys := by
          rw [keys, hs.plugins_eq, List.map_set]
          exact set_of_getElem? (show s.keys[i]? = some (p.path, p.name) from getElem?_keys hp)
        refine ⟨hkeys, fun other => ?_⟩
        constructor
        · rintro ⟨r, hr, rfl, hrload⟩
          rw [hs.plugins_eq] at hr
          obtain ⟨k, hk⟩ := List.mem_iff_getElem?.1 hr
          rcases getElem?_cleared hp hk with ⟨-, rfl⟩ | ⟨hne, hk⟩
          · exact absurd hrload Bool.false_ne_true
          · exact ⟨⟨r, List.mem_of_getElem? hk, rfl, hrload⟩,
              fun heq => hne (h.eq_of_path hk hp heq)⟩
        · rintro ⟨⟨r, hr, rfl, hrload⟩, hother⟩
          obtain ⟨k, hk⟩ := List.mem_iff_getElem?.1 hr
          have hne : i ≠ k := by
            rintro rfl
            rw [hp, Option.some.injEq] at hk
            exact hother (by rw [hk])
          refine ⟨r, ?_, rfl, hrload⟩
          rw [hs.plugins_eq]
          exact List.mem_of_getElem? (by rwa [List.getElem?_set_ne hne])
      · rw [h.findByName hp] at hno
        exact absurd hno (by simp [isLoaded, hload])
    · simp only [if_neg hload]
      refine ⟨trivial, fun other => ⟨fun hother => ⟨hother, ?_⟩, fun hother => hother.1⟩⟩
      rintro rfl
      exact hload ((h.loadedFrom_iff hp).1 hother)

theorem Inv.unloadByPath (h : Inv dir s) (path : CStr) : Inv dir (unloadByPath s path) := by
  rw [Qmem.unloadByPath]
  split
  · exact h
  · split
    · exact h.unload _
    · exact h

/-! ## Loading -/

/-- A library that opens and exports a plugin of the right version, whose init succeeds. -/
structure Valid (env : LoadEnv) (info : PluginInfo) : Prop where
  library : ∃ address, env.library = some (address, some info)
  version : info.apiVersion = pluginApiVersion
  initOk : ¬ (info.service.hasInit ∧ env.initRet < 0)

/-- No plugin of this name has an entry with another path. -/
def OwnsName (s : PluginLoader) (path name : CStr) : Prop :=
  ∀ k ∈ s.keys, k.2 = name.cut 63 → k.1 = path

/-- An entry of a new path, with a name that no other path has. -/
theorem Tidy.append (h : s.Tidy) {name : CStr} (howns : s.OwnsName path name)
    (hnew : path ∉ s.keys.map Prod.fst) (ht : t.keys = s.keys ++ [(path, name.cut 63)]) :
    t.Tidy ∧ ∀ k, k ∈ t.keys ↔ k = (path, name.cut 63) ∨ (k ∈ s.keys ∧ k.1 ≠ path) := by
  have hfree : name.cut 63 ∉ s.keys.map Prod.snd := by
    intro hmem
    obtain ⟨k, hk, hkname⟩ := List.mem_map.1 hmem
    exact hnew (List.mem_map.2 ⟨k, hk, howns k hk hkname⟩)
  have hnodup {l : List CStr} {x : CStr} (hl : l.Nodup) (hx : x ∉ l) : (l ++ [x]).Nodup :=
    List.nodup_append.2 ⟨hl, List.nodup_singleton x, fun y hy z hz heq =>
      hx (List.mem_singleton.1 hz ▸ heq ▸ hy)⟩
  refine ⟨⟨?_, ?_⟩, fun k => ?_⟩
  · rw [ht, List.map_append]
    exact hnodup h.paths hnew
  · rw [ht, List.map_append]
    exact hnodup h.names hfree
  · rw [ht, List.mem_append, List.mem_singleton, or_comm]
    refine or_congr_right ⟨fun hk => ⟨hk, fun hkpath => ?_⟩, fun hk => hk.1⟩
    exact hnew (hkpath ▸ List.mem_map_of_mem hk)

/-- The entry of a path gets a name that no other path has. -/
theorem Tidy.rename (h : s.Tidy) {name : CStr} (howns : s.OwnsName path name)
    (hp : s.plugins[i]? = some p) (hpath : p.path = path)
    (ht : t.keys = s.keys.set i (path, name.cut 63)) :
    t.Tidy ∧ ∀ k, k ∈ t.keys ↔ k = (path, name.cut 63) ∨ (k ∈ s.keys ∧ k.1 ≠ path) := by
  have hi := getElem?_keys hp
  have hindex {j : Nat} {k : CStr × CStr} (hk : s.keys[j]? = some k) (hkpath : k.1 = path) :
      j = i := PoolTable.index_of_key h.paths hi hk (hkpath.trans hpath.symm)
  refine ⟨⟨?_, ?_⟩, fun k => ?_⟩
  · have hsame : t.keys.map Prod.fst = s.keys.map Prod.fst := by
      rw [ht, List.map_set]
      exact set_of_getElem? (by rw [List.getElem?_map, hi, Option.map_some, hpath])
    rw [hsame]
    exact h.paths
  · rw [ht, List.map_set]
    by_cases hsame : p.name = name.cut 63
    · rw [set_of_getElem? (by rw [List.getElem?_map, hi, Option.map_some, hsame])]
      exact h.names
    · refine h.names.set fun hmem => ?_
      obtain ⟨k, hk, hkname⟩ := List.mem_map.1 hmem
      obtain ⟨j, hj⟩ := List.mem_iff_getElem?.1 hk
      obtain rfl := hindex hj (howns k hk hkname)
      rw [hi, Option.some.injEq] at hj
      exact hsame ((congrArg Prod.snd hj).trans hkname)
  · rw [ht]
    constructor
    · intro hk
      obtain ⟨j, hj⟩ := List.mem_iff_getElem?.1 hk
      rw [List.getElem?_set] at hj
      by_cases hij : i = j
      · rw [if_pos hij, if_pos (hij ▸ (List.getElem?_eq_some_iff.1 hi).1),
          Option.some.injEq] at hj
        exact .inl hj.symm
      · rw [if_neg hij] at hj
        exact .inr ⟨List.mem_of_getElem? hj, fun hkpath => hij (hindex hj hkpath).symm⟩
    · rintro (rfl | ⟨hk, hkpath⟩)
      · exact List.mem_of_getElem? (List.getElem?_set_self (List.getElem?_eq_some_iff.1 hi).1)
      · obtain ⟨j, hj⟩ := List.mem_iff_getElem?.1 hk
        have hij : i ≠ j := by
          rintro rfl
          rw [hi, Option.some.injEq] at hj
          exact hkpath (by rw [← hj, hpath])
        exact List.mem_of_getElem? (by rwa [List.getElem?_set_ne hij])

/-- The table after a load that stores. -/
theorem Tidy.storePlugin (h : s.Tidy) {plugin : LoadedPlugin} {name : CStr}
    (howns : s.OwnsName path name) (hpath : plugin.path = path) (hname : plugin.name = name.cut 63)
    (ht : t.plugins = storePlugin s (findPluginByPath s path) plugin) :
    t.Tidy ∧ ∀ k, k ∈ t.keys ↔ k = (path, name.cut 63) ∨ (k ∈ s.keys ∧ k.1 ≠ path) := by
  cases hfind : findPluginByPath s path with
  | none =>
    refine h.append howns (fun hmem => ?_) ?_
    · obtain ⟨k, hk, hkpath⟩ := List.mem_map.1 hmem
      obtain ⟨p, hp, rfl⟩ := List.mem_map.1 hk
      have hother := findPlugin_eq_none_iff.1 hfind p hp
      rw [decide_eq_false_iff_not] at hother
      exact hother hkpath
    · rw [keys, ht, hfind, Qmem.storePlugin, List.map_append, ← hpath, ← hname]
      rfl
  | some found =>
    obtain ⟨i, p⟩ := found
    obtain ⟨hp, hold, -⟩ := findPlugin_eq_some_iff.1 hfind
    refine h.rename howns hp (by simpa using hold) ?_
    rw [keys, ht, hfind, Qmem.storePlugin, List.map_set, ← hpath, ← hname]
    rfl

/-! ## Room -/

section

variable {used : List CStr} (hused : ∀ k ∈ s.keys, k.1 ∈ used)

include hused

/-- There are no more entries than paths. -/
theorem Tidy.length_le (h : s.Tidy) : s.plugins.length ≤ used.length := by
  have hsub : s.keys.map Prod.fst ⊆ used := fun path hpath => by
    obtain ⟨k, hk, rfl⟩ := List.mem_map.1 hpath
    exact hused k hk
  have hlength := (h.paths.subperm hsub).length_le
  rwa [List.length_map, keys, List.length_map] at hlength

/-- A path that nothing is loaded from leaves room for one more. -/
theorem Tidy.count_lt (h : s.Tidy) (hpath : path ∈ used) (hfree : ¬ s.LoadedFrom path) :
    pluginLoaderCount s < used.length := by
  have hsublist : ((loadedPlugins s).map (·.path)).Sublist (s.keys.map Prod.fst) := by
    rw [keys, List.map_map]
    exact List.filter_sublist.map _
  have hnew : path ∉ (loadedPlugins s).map (·.path) := by
    rwa [List.mem_map, ← loadedFrom_iff_mem]
  have hnodup : (path :: (loadedPlugins s).map (·.path)).Nodup :=
    List.nodup_cons.2 ⟨hnew, h.paths.sublist hsublist⟩
  have hsub : path :: (loadedPlugins s).map (·.path) ⊆ used := by
    refine List.cons_subset.2 ⟨hpath, fun other hother => ?_⟩
    obtain ⟨k, hk, rfl⟩ := List.mem_map.1 (hsublist.mem hother)
    exact hused k hk
  have hlength := (hnodup.subperm hsub).length_le
  rwa [List.length_cons, List.length_map, loadedPlugins, ← List.countP_eq_length_filter,
    ← pluginLoaderCount] at hlength

end

/-- A load from a path that is free, of a plugin whose name is the path's. -/
structure Loads (s t : PluginLoader) (path name : CStr) : Prop where
  tidy : t.Tidy
  keys : ∀ k, k ∈ t.keys ↔ k = (path, name.cut 63) ∨ (k ∈ s.keys ∧ k.1 ≠ path)
  loaded : ∀ other, t.LoadedFrom other ↔ s.LoadedFrom other ∨ other = path

theorem Tidy.load (h : s.Tidy) (hinv : Inv dir s) {env : LoadEnv} {info : PluginInfo}
    (hvalid : Valid env info) (hshort : path.length ≤ 511) (hfree : ¬ s.LoadedFrom path)
    (howns : s.OwnsName path info.name) (hroom : s.plugins.length < maxPlugins)
    (hcount : pluginLoaderCount s ≤ 15) :
    Loads s (pluginLoaderLoad s path env).1 path info.name := by
  obtain ⟨address, hlibrary⟩ := hvalid.library
  have hnotLoaded : isLoaded (findPluginByPath s path) = false := by
    refine isLoaded_eq_false_iff.2 fun i p hfind => ?_
    obtain ⟨hp, hpath, -⟩ := findPlugin_eq_some_iff.1 hfind
    obtain rfl : p.path = path := by simpa using hpath
    rw [h.loadedFrom_iff hp] at hfree
    exact Bool.eq_false_iff.2 hfree
  have hnameFree : isLoaded (findPluginByName s info.name) = false := by
    refine isLoaded_eq_false_iff.2 fun i p hfind => ?_
    obtain ⟨hp, hname, -⟩ := findPlugin_eq_some_iff.1 hfind
    have hname : p.name = info.name := by simpa using hname
    have hfits : p.name.cut 63 = p.name :=
      CStr.cut_eq_self (hinv.short p (List.mem_of_getElem? hp)).2
    have hpath := howns _ (List.mem_of_getElem? (getElem?_keys hp)) (by rw [← hname, hfits])
    obtain rfl : p.path = path := hpath
    rw [h.loadedFrom_iff hp] at hfree
    exact Bool.eq_false_iff.2 hfree
  rcases load_cases s path env with ⟨a, i, hst, -, hs⟩ | ⟨hno, -⟩
  · have hsame := hlibrary.symm.trans hst.library
    simp only [Option.some.injEq, Prod.mk.injEq] at hsame
    obtain ⟨rfl, rfl⟩ := hsame
    have hpath : (newPlugin path ⟨address, path⟩ info env.mtime).path = path :=
      CStr.cut_eq_self hshort
    obtain ⟨htidy, hkeys⟩ := h.storePlugin howns hpath rfl hs.plugins_eq
    refine ⟨htidy, hkeys, fun other => ?_⟩
    rw [loadedFrom_iff_mem, loadedFrom_iff_mem]
    have hmem (p : LoadedPlugin) := (loaded_storePlugin s path
      (newPlugin path ⟨address, path⟩ info env.mtime) hnotLoaded rfl).mem_iff (a := p)
    rw [← hs.plugins_eq] at hmem
    simp only [loadedPlugins] at hmem ⊢
    simp only [hmem, List.mem_cons, or_and_right, exists_or, exists_eq_left, hpath]
    rw [or_comm, eq_comm]
  · exact absurd ⟨⟨hnotLoaded, hroom, hlibrary, hvalid.version, registry_room hinv hcount,
      hvalid.initOk⟩, hnameFree⟩ (hno address info)

/-- A library that does not open changes nothing. -/
theorem load_of_closed (s : PluginLoader) (path : CStr) {env : LoadEnv} (h : env.library = none) :
    (pluginLoaderLoad s path env).1.plugins = s.plugins := by
  rcases load_cases s path env with ⟨address, info, hst, -, -⟩ | ⟨-, hs⟩
  · have hlibrary := h.symm.trans hst.library
    cases hlibrary
  · exact hs.plugins_eq

/-- Neither does a load from a path that is loaded. -/
theorem load_of_loaded (h : s.Tidy) (hload : s.LoadedFrom path) (env : LoadEnv) :
    (pluginLoaderLoad s path env).1 = s := by
  obtain ⟨p, hp, rfl, hload⟩ := hload
  obtain ⟨i, hi⟩ := List.mem_iff_getElem?.1 hp
  have hloaded : isLoaded (findPluginByPath s p.path) = true := by
    rw [h.findByPath hi]
    exact hload
  rw [pluginLoaderLoad, if_pos hloaded]

end PluginLoader

end Qmem
