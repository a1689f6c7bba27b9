import Qmem.Daemon.PluginLoader
import Qmem.Lib.Run

/-!
# What the loader's steps do

`load_cases` and `unload_cases` say everything a load and an unload can do to the table and the
registry. From them follows the invariant `PluginLoader.Inv` of every history: the registry
holds exactly the services of the loaded plugins, and what an entry says of its plugin is true.
-/

namespace Qmem

open CLib

/-! ## Looking up -/

theorem findPlugin_eq_some_iff {s : PluginLoader} {p : LoadedPlugin → Bool} {i : Nat}
    {plugin : LoadedPlugin} :
    findPlugin s p = some (i, plugin) ↔
      s.plugins[i]? = some plugin ∧ p plugin ∧
        ∀ j < i, ∀ q, s.plugins[j]? = some q → p q = false := by
  simp only [findPlugin, Option.bind_eq_some_iff, Option.map_eq_some_iff, Prod.mk.injEq,
    List.findIdx?_eq_some_iff_getElem]
  constructor
  · rintro ⟨k, ⟨hk, hp, hbefore⟩, q, hq, rfl, rfl⟩
    rw [List.getElem?_eq_getElem hk, Option.some.injEq] at hq
    refine ⟨by rw [List.getElem?_eq_getElem hk, hq], hq ▸ hp, fun j hj q' hq' => ?_⟩
    obtain ⟨hjlt, hjq⟩ := List.getElem?_eq_some_iff.1 hq'
    simpa [hjq] using hbefore j hj
  · rintro ⟨hi, hp, hbefore⟩
    obtain ⟨hlt, hget⟩ := List.getElem?_eq_some_iff.1 hi
    refine ⟨i, ⟨hlt, by rwa [hget], fun j hj => ?_⟩, plugin, hi, rfl, rfl⟩
    simpa using hbefore j hj _ (List.getElem?_eq_getElem (by omega))

theorem findPlugin_eq_none_iff {s : PluginLoader} {p : LoadedPlugin → Bool} :
    findPlugin s p = none ↔ ∀ q ∈ s.plugins, p q = false := by
  constructor
  · intro h q hq
    rw [findPlugin, Option.bind_eq_none_iff] at h
    cases hfind : s.plugins.findIdx? p with
    | none => exact List.findIdx?_eq_none_iff.1 hfind q hq
    | some i =>
      obtain ⟨hlt, -⟩ := List.findIdx?_eq_some_iff_getElem.1 hfind
      have hnone := h i hfind
      rw [List.getElem?_eq_getElem hlt] at hnone
      simp at hnone
  · intro h
    rw [findPlugin, List.findIdx?_eq_none_iff.2 h]
    rfl

theorem isLoaded_eq_false_iff {found : Option (Nat × LoadedPlugin)} :
    isLoaded found = false ↔ ∀ i p, found = some (i, p) → p.loaded = false := by
  cases found with
  | none => simp [isLoaded]
  | some f =>
    obtain ⟨i, p⟩ := f
    constructor
    · intro h i' p' heq
      obtain ⟨rfl, rfl⟩ := Prod.mk.inj (Option.some.inj heq)
      exact h
    · intro h
      exact h i p rfl

/-! ## Loading -/

/-- A load that goes well except that the plugin's name may be taken. -/
structure Opens (s : PluginLoader) (path : CStr) (env : LoadEnv) (address : Nat)
    (info : PluginInfo) : Prop where
  notLoaded : isLoaded (findPluginByPath s path) = false
  room : s.plugins.length < maxPlugins
  library : env.library = some (address, some info)
  version : info.apiVersion = pluginApiVersion
  registryRoom : s.registry.count < maxServices
  initOk : ¬ (info.service.hasInit ∧ env.initRet < 0)

/-- A load that gets past every check. -/
structure Stores (s : PluginLoader) (path : CStr) (env : LoadEnv) (address : Nat)
    (info : PluginInfo) : Prop extends Opens s path env address info where
  nameFree : isLoaded (findPluginByName s info.name) = false

/-- The index at which a load stores its plugin. -/
def slot (s : PluginLoader) (path : CStr) : Nat :=
  match findPluginByPath s path with
  | some (i, _) => i
  | none => s.plugins.length

theorem svcManagerRegister_of_ok {r : Registry} {svc : Service} {initRet : Int32}
    (hroom : r.count < maxServices) (hinit : ¬ (svc.hasInit ∧ initRet < 0)) :
    svcManagerRegister r svc initRet =
      ({ services := Function.update r.services r.count (some svc), count := r.count + 1 },
        if svc.hasInit then [.init svc initRet] else [], 0) := by
  rw [svcManagerRegister, if_neg (by omega), if_neg hinit]

theorem svcManagerRegister_failed {r : Registry} {svc : Service} {initRet : Int32}
    (h : ¬ (r.count < maxServices ∧ ¬ (svc.hasInit ∧ initRet < 0))) :
    (svcManagerRegister r svc initRet).1 = r ∧ (svcManagerRegister r svc initRet).2.2 < 0 := by
  unfold svcManagerRegister
  split
  · exact ⟨rfl, (by decide : (-1 : Int32) < 0)⟩
  · rename_i hroom
    have hinit : svc.hasInit ∧ initRet < 0 := by
      by_contra hinit
      exact h ⟨by omega, hinit⟩
    rw [if_pos hinit]
    exact ⟨rfl, hinit.2⟩

/-- What the table and the registry are after a step, whatever calls it made. -/
structure Becomes (s s' : PluginLoader) (plugins : List LoadedPlugin) (registry : Registry) :
    Prop where
  plugins_eq : s'.plugins = plugins
  registry_eq : s'.registry = registry
  pluginDir_eq : s'.pluginDir = s.pluginDir
  watching_eq : s'.watching = s.watching
  calls : s.calls <+: s'.calls

/-- The load opens the library. -/
structure OpensLibrary (s : PluginLoader) (path : CStr) (env : LoadEnv) (address : Nat)
    (info : PluginInfo) : Prop where
  notLoaded : isLoaded (findPluginByPath s path) = false
  room : s.plugins.length < maxPlugins
  library : env.library = some (address, some info)

/-- What a load that fails calls: nothing, or an attempt to open, or a library opened and closed
again, perhaps with a failed init in between. -/
inductive FailedCalls (s : PluginLoader) (path : CStr) (env : LoadEnv) : List LoaderCall → Prop
  | nothing : FailedCalls s path env []
  | notOpened : FailedCalls s path env [.dlopen path none]
  | closed (address : Nat) : FailedCalls s path env
      [.dlopen path (some ⟨address, path⟩), .dlclose ⟨address, path⟩]
  | initFailed (address : Nat) (info : PluginInfo) (opens : OpensLibrary s path env address info)
      (ret : env.initRet < 0) : FailedCalls s path env
        [.dlopen path (some ⟨address, path⟩), .service (.init info.service env.initRet),
          .dlclose ⟨address, path⟩]

/-- **A load** stores the plugin and registers its service, or it changes nothing. -/
theorem load_spec (s : PluginLoader) (path : CStr) (env : LoadEnv) :
    (∃ address info, Stores s path env address info ∧
      pluginLoaderLoad s path env =
        ({ s with
          plugins := storePlugin s (findPluginByPath s path)
            (newPlugin path ⟨address, path⟩ info env.mtime)
          registry := {
            services := Function.update s.registry.services s.registry.count (some info.service)
            count := s.registry.count + 1 }
          calls := s.calls ++ .dlopen path (some ⟨address, path⟩) ::
            (initService info.service env.initRet).map LoaderCall.service }, 0)) ∨
    ((∀ address info, ¬ Stores s path env address info) ∧ ∃ more, FailedCalls s path env more ∧
      (pluginLoaderLoad s path env).1 = { s with calls := s.calls ++ more }) := by
  unfold pluginLoaderLoad
  dsimp only
  split
  · rename_i hloaded
    exact Or.inr ⟨fun a i h => absurd h.notLoaded (by simp [hloaded]), [], .nothing, by simp⟩
  rename_i hloaded
  have hloaded : isLoaded (findPluginByPath s path) = false := by simpa using hloaded
  split
  · rename_i hfull
    exact Or.inr ⟨fun a i h => absurd h.room (by omega), [], .nothing, by simp⟩
  rename_i hroom
  split
  · rename_i hlib
    exact Or.inr ⟨fun a i h => absurd (hlib.symm.trans h.library) (by simp), _, .notOpened, rfl⟩
  rename_i address symbol hlib
  have hclosed {a : List LoaderCall} :
      s.calls ++ [.dlopen path (some ⟨address, path⟩)] ++ a = s.calls ++
        (.dlopen path (some ⟨address, path⟩) :: a) := by simp
  split
  · exact Or.inr ⟨fun a i h => absurd (hlib.symm.trans h.library) (by simp), _, .closed address,
      by simp [hclosed]⟩
  rename_i info
  have hinfo {a : Nat} {i : PluginInfo} (h : Stores s path env a i) : i = info := by
    have heq := hlib.symm.trans h.library
    simp only [Option.some.injEq, Prod.mk.injEq] at heq
    exact heq.2.symm
  split
  · rename_i hversion
    exact Or.inr ⟨fun a i h => hversion (hinfo h ▸ h.version), _, .closed address,
      by simp [hclosed]⟩
  rename_i hversion
  split
  · rename_i hdup
    have hdup : isLoaded (findPluginByName s info.name) = true := hdup
    exact Or.inr ⟨fun a i h => absurd (hinfo h ▸ h.nameFree) (by simp [hdup]), _, .closed address,
      by simp [hclosed]⟩
  rename_i hdup
  have hdup : ¬ isLoaded (findPluginByName s info.name) = true := hdup
  by_cases hok : s.registry.count < maxServices ∧ ¬ (info.service.hasInit ∧ env.initRet < 0)
  · rw [svcManagerRegister_of_ok hok.1 hok.2]
    exact Or.inl ⟨address, info, ⟨⟨hloaded, by omega, hlib, by simpa using hversion, hok.1,
      hok.2⟩, by simpa using hdup⟩, by simp [initService, storePlugin]⟩
  · have hno (a : Nat) (i : PluginInfo) : ¬ Stores s path env a i := fun h =>
      hok (hinfo h ▸ ⟨h.registryRoom, h.initOk⟩)
    obtain ⟨hsame, hneg⟩ := svcManagerRegister_failed hok
    rw [if_pos hneg]
    refine Or.inr ⟨hno, ?_⟩
    by_cases hfull : s.registry.count < maxServices
    · have hinit : info.service.hasInit ∧ env.initRet < 0 := by
        by_contra hinit
        exact hok ⟨hfull, hinit⟩
      have hregister : svcManagerRegister s.registry info.service env.initRet =
          (s.registry, [.init info.service env.initRet], env.initRet) := by
        rw [svcManagerRegister, if_neg (by omega), if_pos hinit]
      exact ⟨_, .initFailed address info ⟨hloaded, by omega, hlib⟩ hinit.2,
        by simp [hregister]⟩
    · have hregister : svcManagerRegister s.registry info.service env.initRet =
          (s.registry, [], -1) := by
        rw [svcManagerRegister, if_pos (by omega)]
      exact ⟨_, .closed address, by simp [hregister]⟩

theorem load_cases (s : PluginLoader) (path : CStr) (env : LoadEnv) :
    (∃ address info, Stores s path env address info ∧
      (pluginLoaderLoad s path env).2 = 0 ∧
      Becomes s (pluginLoaderLoad s path env).1
        (storePlugin s (findPluginByPath s path)
          (newPlugin path ⟨address, path⟩ info env.mtime))
        { services := Function.update s.registry.services s.registry.count (some info.service)
          count := s.registry.count + 1 }) ∨
    ((∀ address info, ¬ Stores s path env address info) ∧
      Becomes s (pluginLoaderLoad s path env).1 s.plugins s.registry) := by
  rcases load_spec s path env with ⟨address, info, hst, hs⟩ | ⟨hno, more, -, hs⟩
  · rw [hs]
    exact Or.inl ⟨address, info, hst, rfl, rfl, rfl, rfl, rfl, List.prefix_append _ _⟩
  · rw [hs]
    exact Or.inr ⟨hno, rfl, rfl, rfl, rfl, List.prefix_append _ _⟩

/-! ## Unloading -/

/-- **An unload** clears the entry it finds and takes its service out, or it changes nothing. -/
theorem unload_cases (s : PluginLoader) (name : CStr) :
    (∃ i p, findPluginByName s name = some (i, p) ∧ p.loaded = true ∧
      (pluginLoaderUnload s name).2 = 0 ∧
      Becomes s (pluginLoaderUnload s name).1
        (s.plugins.set i { p with handle := none, loaded := false })
        (svcManagerUnregister s.registry p.service).1 ∧
      (pluginLoaderUnload s name).1.calls = s.calls ++
        (svcManagerUnregister s.registry p.service).2.1.map LoaderCall.service ++
        (p.handle.map LoaderCall.dlclose).toList) ∨
    (isLoaded (findPluginByName s name) = false ∧ pluginLoaderUnload s name = (s, -1)) := by
  unfold pluginLoaderUnload
  cases hfind : findPluginByName s name with
  | none => exact Or.inr ⟨rfl, rfl⟩
  | some f =>
    obtain ⟨i, p⟩ := f
    cases hp : p.loaded with
    | false => exact Or.inr ⟨by simpa [isLoaded] using hp, by simp [hp]⟩
    | true =>
      have hgo : ¬ ¬ p.loaded = true := by simp [hp]
      simp only [if_neg hgo]
      exact Or.inl ⟨i, p, rfl, hp, trivial,
        ⟨rfl, rfl, rfl, rfl, (List.prefix_append _ _).trans (List.prefix_append _ _)⟩, rfl⟩

/-! ## The table as a multiset -/

/-- Replacing one entry of a list exchanges it. -/
theorem set_perm {α : Type} {l : List α} {i : Nat} {y : α} (hy : l[i]? = some y) (x : α) :
    (y :: l.set i x).Perm (x :: l) := by
  obtain ⟨hlt, hget⟩ := List.getElem?_eq_some_iff.1 hy
  have hl : l = l.take i ++ y :: l.drop (i + 1) := by
    rw [← hget, ← List.drop_eq_getElem_cons hlt, List.take_append_drop]
  have hset : l.set i x = l.take i ++ x :: l.drop (i + 1) := by
    rw [List.set_eq_take_append_cons_drop, if_pos hlt]
  rw [hset]
  conv_rhs => rw [hl]
  exact ((List.perm_middle.cons y).trans (List.Perm.swap x y _)).trans
    (List.perm_middle.cons x).symm

theorem loaded_storePlugin (s : PluginLoader) (path : CStr) (plugin : LoadedPlugin)
    (hfree : isLoaded (findPluginByPath s path) = false) (hnew : plugin.loaded = true) :
    ((storePlugin s (findPluginByPath s path) plugin).filter (·.loaded)).Perm
      (plugin :: loadedPlugins s) := by
  cases hfind : findPluginByPath s path with
  | none =>
    simp only [storePlugin, List.filter_append, List.filter_singleton, hnew]
    exact List.perm_append_singleton _ _
  | some f =>
    obtain ⟨i, p⟩ := f
    have hp : p.loaded = false := isLoaded_eq_false_iff.1 hfree i p hfind
    have hperm := (set_perm (findPlugin_eq_some_iff.1 hfind).1 plugin).filter (·.loaded)
    rwa [List.filter_cons_of_neg (by simp [hp]), List.filter_cons_of_pos hnew] at hperm

theorem loaded_cleared {s : PluginLoader} {i : Nat} {p : LoadedPlugin}
    (hp : s.plugins[i]? = some p) (hloaded : p.loaded = true) (h : Option Handle) :
    (p :: (s.plugins.set i { p with handle := h, loaded := false }).filter (·.loaded)).Perm
      (loadedPlugins s) := by
  have hperm := (set_perm hp { p with handle := h, loaded := false }).filter (·.loaded)
  rwa [List.filter_cons_of_pos hloaded, List.filter_cons_of_neg (by simp)] at hperm

theorem getElem?_storePlugin (s : PluginLoader) (path : CStr) (plugin : LoadedPlugin) (j : Nat) :
    (storePlugin s (findPluginByPath s path) plugin)[j]? =
      if j = slot s path then some plugin else s.plugins[j]? := by
  unfold storePlugin slot
  cases hfind : findPluginByPath s path with
  | none =>
    show (s.plugins ++ [plugin])[j]? = if j = s.plugins.length then some plugin else s.plugins[j]?
    split
    · rename_i h
      rw [h, List.getElem?_concat_length]
    · rename_i h
      rcases Nat.lt_or_gt_of_ne h with hlt | hgt
      · exact List.getElem?_append_left hlt
      · rw [List.getElem?_eq_none (by simpa using hgt), List.getElem?_eq_none (by omega)]
  | some f =>
    obtain ⟨i, p⟩ := f
    have hlt := (List.getElem?_eq_some_iff.1 (findPlugin_eq_some_iff.1 hfind).1).1
    show (s.plugins.set i plugin)[j]? = if j = i then some plugin else s.plugins[j]?
    rw [List.getElem?_set]
    by_cases h : i = j
    · rw [if_pos h, if_pos (h ▸ hlt), if_pos h.symm]
    · rw [if_neg h, if_neg (Ne.symm h)]

theorem path_ne_of_lt_slot {s : PluginLoader} {path : CStr} {j : Nat} {q : LoadedPlugin}
    (hj : j < slot s path) (hq : s.plugins[j]? = some q) : q.path ≠ path := by
  cases hfind : findPluginByPath s path with
  | none => simpa using findPlugin_eq_none_iff.1 hfind q (List.mem_of_getElem? hq)
  | some f =>
    obtain ⟨i, p⟩ := f
    have hslot : slot s path = i := by rw [slot, hfind]
    simpa using (findPlugin_eq_some_iff.1 hfind).2.2 j (hslot ▸ hj) q hq

/-! ## The invariant -/

/-- What an entry says of the plugin loaded into it. -/
structure LoadedPlugin.Faithful (p : LoadedPlugin) : Prop where
  path_eq : ∀ h ∈ p.handle, p.path = h.path.cut 511
  handle_isSome : p.handle.isSome
  name_eq : p.name = p.info.name.cut 63
  service_eq : p.service = p.info.service

namespace PluginLoader

/-- What holds in every history that starts with the directory `dir`. -/
structure Inv (dir : CStr) (s : PluginLoader) : Prop where
  pluginDir_eq : s.pluginDir = dir
  registered : ∃ xs, s.registry.Holds xs ∧ xs.Perm ((loadedPlugins s).map (·.service))
  faithful : ∀ p ∈ s.plugins, p.loaded = true → p.Faithful
  short : ∀ p ∈ s.plugins, p.path.length ≤ 511 ∧ p.name.length ≤ 63
  /-- A file with a short path is looked up at its own entry. -/
  firstPath : ∀ (i : Nat) (p : LoadedPlugin), s.plugins[i]? = some p → p.loaded = true →
    ∀ h ∈ p.handle, h.path.length ≤ 511 →
      ∀ j < i, ∀ q : LoadedPlugin, s.plugins[j]? = some q → q.path ≠ h.path

theorem inv_init (dir : CStr) : Inv (pluginLoaderInit dir).pluginDir (pluginLoaderInit dir) where
  pluginDir_eq := rfl
  registered := ⟨[], Registry.holds_init, List.Perm.refl _⟩
  faithful p hp := by simp [pluginLoaderInit] at hp
  short p hp := by simp [pluginLoaderInit] at hp
  firstPath i p hp := by simp [pluginLoaderInit] at hp

variable {dir : CStr} {s s' : PluginLoader}

theorem Inv.congr (h : Inv dir s) (hs : Becomes s s' s.plugins s.registry) : Inv dir s' where
  pluginDir_eq := hs.pluginDir_eq.trans h.pluginDir_eq
  registered := by
    rw [hs.registry_eq, loadedPlugins, hs.plugins_eq]
    exact h.registered
  faithful := by
    rw [hs.plugins_eq]
    exact h.faithful
  short := by
    rw [hs.plugins_eq]
    exact h.short
  firstPath := by
    rw [hs.plugins_eq]
    exact h.firstPath

theorem Inv.load (h : Inv dir s) (path : CStr) (env : LoadEnv) :
    Inv dir (pluginLoaderLoad s path env).1 := by
  rcases load_cases s path env with ⟨address, info, hst, -, hs⟩ | ⟨-, hs⟩
  · obtain ⟨xs, hxs, hperm⟩ := h.registered
    set plugin := newPlugin path ⟨address, path⟩ info env.mtime with hplugin
    refine ⟨hs.pluginDir_eq.trans h.pluginDir_eq, ⟨xs ++ [info.service], ?_, ?_⟩, ?_, ?_, ?_⟩
    · rw [hs.registry_eq]
      exact hxs.register info.service
    · rw [loadedPlugins, hs.plugins_eq]
      have hloaded := (loaded_storePlugin s path plugin hst.notLoaded rfl).map
        (·.service)
      exact ((List.perm_append_singleton _ _).trans (hperm.cons info.service)).trans hloaded.symm
    · rw [hs.plugins_eq]
      intro p hp hload
      obtain ⟨j, hj⟩ := List.mem_iff_getElem?.1 hp
      rw [getElem?_storePlugin] at hj
      split at hj
      · obtain rfl := Option.some.inj hj
        exact ⟨fun h' hh => by rw [← Option.some.inj hh]; rfl, rfl, rfl, rfl⟩
      · exact h.faithful p (List.mem_of_getElem? hj) hload
    · rw [hs.plugins_eq]
      intro p hp
      obtain ⟨j, hj⟩ := List.mem_iff_getElem?.1 hp
      rw [getElem?_storePlugin] at hj
      split at hj
      · obtain rfl := Option.some.inj hj
        exact ⟨path.length_cut_le 511, info.name.length_cut_le 63⟩
      · exact h.short p (List.mem_of_getElem? hj)
    · rw [hs.plugins_eq]
      intro i p hp hload h' hh hlen j hj q hq
      rw [getElem?_storePlugin] at hp hq
      split at hp
      · -- the entry just written: there was none with its path before it
        rename_i hi
        obtain rfl := Option.some.inj hp
        obtain rfl : ⟨address, path⟩ = h' := Option.some.inj hh
        rw [if_neg (by omega)] at hq
        exact path_ne_of_lt_slot (hi ▸ hj) hq
      · split at hq
        · -- an entry behind the one just written: its path was free to be found first
          rename_i hjs
          obtain rfl := Option.some.inj hq
          have hfaithful := h.faithful p (List.mem_of_getElem? hp) hload
          have hpath : p.path = h'.path :=
            (hfaithful.path_eq h' hh).trans (CStr.cut_eq_self hlen)
          have hi := (List.getElem?_eq_some_iff.1 hp).1
          cases hfind : findPluginByPath s path with
          | none =>
            have hslot : slot s path = s.plugins.length := by rw [slot, hfind]
            omega
          | some f =>
            obtain ⟨k, r⟩ := f
            have hslot : slot s path = k := by rw [slot, hfind]
            obtain ⟨hr, hrpath, -⟩ := findPlugin_eq_some_iff.1 hfind
            have hrpath : r.path = path := by simpa using hrpath
            have hshort : path.length ≤ 511 := by
              rw [← hrpath]
              exact (h.short r (List.mem_of_getElem? hr)).1
            intro heq
            have heq : path = h'.path := (CStr.cut_eq_self hshort).symm.trans heq
            exact h.firstPath i p hp hload h' hh hlen k (by omega) r hr (hrpath.trans heq)
        · exact h.firstPath i p hp hload h' hh hlen j hj q hq
  · exact h.congr hs

/-- Clearing an entry, which keeps its path and name. -/
theorem getElem?_cleared {i j : Nat} {p q : LoadedPlugin} (hp : s.plugins[i]? = some p)
    (hq : (s.plugins.set i { p with handle := none, loaded := false })[j]? = some q) :
    (j = i ∧ q = { p with handle := none, loaded := false }) ∨
      (j ≠ i ∧ s.plugins[j]? = some q) := by
  have hlt := (List.getElem?_eq_some_iff.1 hp).1
  rw [List.getElem?_set] at hq
  split at hq
  · rename_i hij
    rw [Option.some.injEq] at hq
    exact Or.inl ⟨hij.symm, hq.symm⟩
  · rename_i hij
    exact Or.inr ⟨Ne.symm hij, hq⟩

theorem Inv.unload (h : Inv dir s) (name : CStr) : Inv dir (pluginLoaderUnload s name).1 := by
  rcases unload_cases s name with ⟨i, p, hfind, hload, -, hs, -⟩ | ⟨-, hs⟩
  · obtain ⟨xs, hxs, hperm⟩ := h.registered
    have hp := (findPlugin_eq_some_iff.1 hfind).1
    refine ⟨hs.pluginDir_eq.trans h.pluginDir_eq, ⟨xs.erase p.service, ?_, ?_⟩, ?_, ?_, ?_⟩
    · rw [hs.registry_eq]
      exact hxs.unregister p.service
    · rw [loadedPlugins, hs.plugins_eq]
      have hcleared := ((loaded_cleared hp hload none).map (·.service)).symm
      have herase := (hperm.trans hcleared).erase p.service
      rwa [List.map_cons, List.erase_cons_head] at herase
    · rw [hs.plugins_eq]
      intro q hq hqload
      obtain ⟨j, hj⟩ := List.mem_iff_getElem?.1 hq
      rcases getElem?_cleared hp hj with ⟨-, rfl⟩ | ⟨-, hj⟩
      · simp at hqload
      · exact h.faithful q (List.mem_of_getElem? hj) hqload
    · rw [hs.plugins_eq]
      intro q hq
      obtain ⟨j, hj⟩ := List.mem_iff_getElem?.1 hq
      rcases getElem?_cleared hp hj with ⟨-, rfl⟩ | ⟨-, hj⟩
      · exact h.short p (List.mem_of_getElem? hp)
      · exact h.short q (List.mem_of_getElem? hj)
    · rw [hs.plugins_eq]
      intro k r hr hrload h' hh hlen j hj q hq
      rcases getElem?_cleared hp hr with ⟨-, rfl⟩ | ⟨-, hr'⟩
      · simp at hrload
      · rcases getElem?_cleared hp hq with ⟨rfl, rfl⟩ | ⟨-, hq'⟩
        · exact h.firstPath k r hr' hrload h' hh hlen _ hj p hp
        · exact h.firstPath k r hr' hrload h' hh hlen j hj q hq'
  · rw [hs]
    exact h

end PluginLoader

/-! ## Steps as loads and unloads -/

/-- The load a step makes, if it makes one, and the state it makes it in: for a reload and for a
changed file, the state after the old plugin has been unloaded. -/
def LoaderAction.loads (s : PluginLoader) :
    LoaderAction → Option (PluginLoader × CStr × LoadEnv)
  | .load path env => some (s, path, env)
  | .unload _ => none
  | .reload path env => some (unloadByPath s path, path, env)
  | .event e env =>
    e.name.bind fun name =>
      if isPluginFile name ∧ (e.closeWrite || e.movedTo) then
        some (unloadByPath s (pluginPath s name), pluginPath s name, env)
      else none

/-- A step may unload a plugin, and then it may load one. -/
theorem LoaderAction.apply_cases (s : PluginLoader) (a : LoaderAction) :
    ∃ t, (t = s ∨ ∃ name, t = (pluginLoaderUnload s name).1) ∧
      ((a.loads s = none ∧ a.apply s = t) ∨
        ∃ path env, a.loads s = some (t, path, env) ∧
          a.apply s = (pluginLoaderLoad t path env).1) := by
  have hbyPath (path : CStr) : unloadByPath s path = s ∨
      ∃ name, unloadByPath s path = (pluginLoaderUnload s name).1 := by
    unfold unloadByPath
    split
    · exact Or.inl rfl
    · split
      · exact Or.inr ⟨_, rfl⟩
      · exact Or.inl rfl
  cases a with
  | load path env => exact ⟨s, Or.inl rfl, Or.inr ⟨path, env, rfl, rfl⟩⟩
  | unload name => exact ⟨_, Or.inr ⟨name, rfl⟩, Or.inl ⟨rfl, rfl⟩⟩
  | reload path env => exact ⟨_, hbyPath path, Or.inr ⟨path, env, rfl, rfl⟩⟩
  | event e env =>
    simp only [LoaderAction.apply, LoaderAction.loads, handleEvent]
    cases e.name with
    | none => exact ⟨s, Or.inl rfl, Or.inl ⟨rfl, rfl⟩⟩
    | some name =>
      simp only [Option.bind_some]
      by_cases hfile : isPluginFile name = true
      · by_cases hchange : (e.closeWrite || e.movedTo) = true
        · exact ⟨_, hbyPath (pluginPath s name), Or.inr ⟨pluginPath s name, env,
            by simp [hfile, hchange], by simp [hfile, hchange, pluginLoaderReload]⟩⟩
        · by_cases hdelete : e.delete = true
          · exact ⟨_, hbyPath (pluginPath s name), Or.inl
              ⟨by simp [hchange], by simp [hfile, hchange, hdelete]⟩⟩
          · exact ⟨s, Or.inl rfl, Or.inl
              ⟨by simp [hchange], by simp [hfile, hchange, hdelete]⟩⟩
      · exact ⟨s, Or.inl rfl, Or.inl ⟨by simp [hfile], by simp [hfile]⟩⟩

namespace PluginLoader

variable {dir : CStr} {s : PluginLoader}

/-- **Every step keeps the invariant.** -/
theorem Inv.apply (h : Inv dir s) (a : LoaderAction) : Inv dir (a.apply s) := by
  obtain ⟨t, ht, hstep⟩ := a.apply_cases s
  have hinv : Inv dir t := by
    rcases ht with rfl | ⟨name, rfl⟩
    · exact h
    · exact h.unload name
  rcases hstep with ⟨-, hs⟩ | ⟨path, env, -, hs⟩
  · rw [hs]
    exact hinv
  · rw [hs]
    exact hinv.load path env

/-- What a load of a step has to satisfy, where it makes one. -/
def LoadOk (Ok : PluginLoader → CStr → LoadEnv → Prop) (s : PluginLoader) (a : LoaderAction) :
    Prop :=
  ∀ t path env, a.loads s = some (t, path, env) → Ok t path env

/-- A property that unloads keep, and loads keep exactly when they are `Ok`, survives a step
exactly when the load in it is. -/
theorem Inv.apply_iff {Good : PluginLoader → Prop} {Ok : PluginLoader → CStr → LoadEnv → Prop}
    (hunload : ∀ s name, Inv dir s → Good s → Good (pluginLoaderUnload s name).1)
    (hload : ∀ s path env, Inv dir s → Good s →
      (Good (pluginLoaderLoad s path env).1 ↔ Ok s path env))
    (h : Inv dir s) (hgood : Good s) (a : LoaderAction) :
    Good (a.apply s) ↔ LoadOk Ok s a := by
  obtain ⟨t, ht, hstep⟩ := a.apply_cases s
  have ⟨hinv, hgood⟩ : Inv dir t ∧ Good t := by
    rcases ht with rfl | ⟨name, rfl⟩
    · exact ⟨h, hgood⟩
    · exact ⟨h.unload name, hunload s name h hgood⟩
  rcases hstep with ⟨hnone, hs⟩ | ⟨path, env, hsome, hs⟩
  · rw [hs]
    exact iff_of_true hgood fun t' path env hl => absurd (hnone.symm.trans hl) (by simp)
  · rw [hs, hload t path env hinv hgood]
    constructor
    · intro hok t' path' env' hl
      simp only [hsome, Option.some.injEq, Prod.mk.injEq] at hl
      obtain ⟨rfl, rfl, rfl⟩ := hl
      exact hok
    · intro hok
      exact hok t path env hsome

/-- The state after a history that starts with an empty loader. -/
abbrev after (dir : CStr) (as : List LoaderAction) : PluginLoader :=
  Run.state (fun s a => LoaderAction.apply s a) (pluginLoaderInit dir) as

theorem inv_after (dir : CStr) (as : List LoaderAction) :
    Inv (pluginLoaderInit dir).pluginDir (after dir as) :=
  Run.invariant (inv_init dir) (fun _ a h => h.apply a) as

/-- Such a property holds in every state of a history exactly when every load in it is `Ok`. -/
theorem after_always_iff {Good : PluginLoader → Prop}
    {Ok : PluginLoader → CStr → LoadEnv → Prop} (hstart : Good (pluginLoaderInit dir))
    (hunload : ∀ s name, Inv (pluginLoaderInit dir).pluginDir s → Good s →
      Good (pluginLoaderUnload s name).1)
    (hload : ∀ s path env, Inv (pluginLoaderInit dir).pluginDir s → Good s →
      (Good (pluginLoaderLoad s path env).1 ↔ Ok s path env))
    (as : List LoaderAction) :
    (∀ k ≤ as.length, Good (after dir (as.take k))) ↔
      ∀ k a, as[k]? = some a → LoadOk Ok (after dir (as.take k)) a :=
  Run.always_iff (inv_init dir) (fun _ a h => h.apply a) hstart
    (fun _ a h hgood => h.apply_iff hunload hload hgood a) as

end PluginLoader

end Qmem
