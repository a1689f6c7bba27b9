import Qmem.Daemon.Main

/-!
# The lives of a service

A service is called in lives: a successful init, collects and snapshots, one destroy. The trace of
all calls out of the loader and the manager shows it, whatever order loads, unloads, events and
cycles come in, and it shows that a collect or a snapshot only ever goes into a library that is
open. The two passes of the shutdown divide the services between them.
-/

namespace Qmem

open CLib PluginLoader

/-! ## Lives -/

namespace ServiceCall

def target : ServiceCall → Service
  | .init svc _ | .collect svc _ | .snapshot svc | .destroy svc => svc

/-- A collect or a snapshot. -/
def isUse : ServiceCall → Bool
  | .collect _ _ | .snapshot _ => true
  | _ => false

end ServiceCall

/-- A life: an init that succeeds, any number of collects and snapshots, one destroy. -/
def CompleteLife (svc : Service) (calls : List ServiceCall) : Prop :=
  ∃ ret uses, 0 ≤ ret ∧ (∀ c ∈ uses, c.isUse = true ∧ c.target = svc) ∧
    calls = initService svc ret ++ uses ++ destroyService svc

/-- An init that fails, and nothing more. -/
def FailedInit (svc : Service) (calls : List ServiceCall) : Prop :=
  ∃ ret, ret < 0 ∧ calls = [.init svc ret]

/-- Lives one after the other. -/
def Lives (svc : Service) (calls : List ServiceCall) : Prop :=
  ∃ lives : List (List ServiceCall),
    (∀ life ∈ lives, CompleteLife svc life ∨ FailedInit svc life) ∧ calls = lives.flatten

/-- Lives, of which the last has not ended if the service is alive. -/
def LivesSoFar (svc : Service) (alive : Bool) (calls : List ServiceCall) : Prop :=
  if alive then
    ∃ past ret uses, Lives svc past ∧ 0 ≤ ret ∧ (∀ c ∈ uses, c.isUse = true ∧ c.target = svc) ∧
      calls = past ++ initService svc ret ++ uses
  else Lives svc calls

variable {svc : Service} {calls : List ServiceCall}

theorem Lives.append {life : List ServiceCall} (h : Lives svc calls)
    (hlife : CompleteLife svc life ∨ FailedInit svc life) : Lives svc (calls ++ life) := by
  obtain ⟨lives, hall, rfl⟩ := h
  refine ⟨lives ++ [life], ?_, by simp⟩
  exact List.forall_mem_append.2 ⟨hall, List.forall_mem_singleton.2 hlife⟩

theorem LivesSoFar.begin {ret : Int32} (h : LivesSoFar svc false calls) (hret : 0 ≤ ret) :
    LivesSoFar svc true (calls ++ initService svc ret) :=
  ⟨calls, ret, [], h, hret, by simp, by simp⟩

theorem LivesSoFar.fail {ret : Int32} (h : LivesSoFar svc false calls) (hret : ret < 0) :
    LivesSoFar svc false (calls ++ [.init svc ret]) :=
  Lives.append h (Or.inr ⟨ret, hret, rfl⟩)

theorem LivesSoFar.use {uses : List ServiceCall} (h : LivesSoFar svc true calls)
    (huses : ∀ c ∈ uses, c.isUse = true ∧ c.target = svc) :
    LivesSoFar svc true (calls ++ uses) := by
  obtain ⟨past, ret, before, hpast, hret, hbefore, rfl⟩ := h
  refine ⟨past, ret, before ++ uses, hpast, hret, fun c hc => ?_, by simp⟩
  rcases List.mem_append.1 hc with hc | hc
  · exact hbefore c hc
  · exact huses c hc

theorem LivesSoFar.finish (h : LivesSoFar svc true calls) :
    LivesSoFar svc false (calls ++ destroyService svc) := by
  obtain ⟨past, ret, uses, hpast, hret, huses, rfl⟩ := h
  have hlife : Lives svc (past ++ (initService svc ret ++ uses ++ destroyService svc)) :=
    hpast.append (Or.inl ⟨ret, uses, hret, huses, rfl⟩)
  simpa [LivesSoFar, List.append_assoc] using hlife

/-! ## What the trace says -/

/-- The calls on one service. -/
def callsOn (svc : Service) (trace : List LoaderCall) : List ServiceCall :=
  trace.filterMap fun
    | .service c => if c.target = svc then some c else none
    | _ => none

theorem callsOn_append (svc : Service) (as bs : List LoaderCall) :
    callsOn svc (as ++ bs) = callsOn svc as ++ callsOn svc bs := List.filterMap_append

theorem callsOn_service (svc : Service) (cs : List ServiceCall) :
    callsOn svc (cs.map .service) = cs.filter fun c => c.target = svc := by
  induction cs with
  | nil => rfl
  | cons c cs ih =>
    by_cases hc : c.target = svc
    · rw [List.filter_cons_of_pos (by simpa using hc), ← ih]
      simp [callsOn, hc]
    · rw [List.filter_cons_of_neg (by simpa using hc), ← ih]
      simp [callsOn, hc]

/-- `dlopen` counts how often a library is open, and `dlclose` counts down. -/
def openHandle (handles : List Handle) : LoaderCall → List Handle
  | .dlopen _ (some h) => h :: handles
  | .dlclose h => handles.erase h
  | _ => handles

/-- The libraries that are open, each as often as it has been opened. -/
def openHandles (trace : List LoaderCall) : List Handle := trace.foldl openHandle []

theorem openHandles_append (as bs : List LoaderCall) :
    openHandles (as ++ bs) = bs.foldl openHandle (openHandles as) := List.foldl_append

theorem openHandles_service (as : List LoaderCall) (cs : List ServiceCall) :
    openHandles (as ++ cs.map .service) = openHandles as := by
  rw [openHandles_append]
  induction cs with
  | nil => rfl
  | cons c cs ih => exact ih

/-- A collect or a snapshot goes into an open library, one that provides the service. -/
def IntoOpenLibrary (Provides : Handle → Service → Prop) (before : List LoaderCall)
    (call : LoaderCall) : Prop :=
  ∀ c, call = .service c → c.isUse = true →
    ∃ h, Provides h c.target ∧ h ∈ openHandles before

/-! ## The invariant -/

/-- The library that a load opens brings a service that no loaded plugin has. -/
def LibrariesDistinct (s : PluginLoader) (path : CStr) (env : LoadEnv) : Prop :=
  ∀ address info, OpensLibrary s path env address info →
    ∀ p ∈ loadedPlugins s, p.service ≠ info.service

/-- Exactly the registered services are alive, and exactly the loaded plugins' libraries open. -/
structure LifeInv (Provides : Handle → Service → Prop) (s : PluginLoader) : Prop where
  nodup : ((loadedPlugins s).map (·.service)).Nodup
  lives : ∀ svc, LivesSoFar svc (decide (svc ∈ s.registry.list)) (callsOn svc s.calls)
  handles : (openHandles s.calls).Perm ((loadedPlugins s).filterMap (·.handle))
  provided : ∀ p ∈ loadedPlugins s, ∃ h, p.handle = some h ∧ Provides h p.service
  uses : Run.Each (IntoOpenLibrary Provides) s.calls

variable {Provides : Handle → Service → Prop} {dir : CStr} {s : PluginLoader}

theorem lifeInv_init (dir : CStr) : LifeInv Provides (pluginLoaderInit dir) where
  nodup := List.nodup_nil
  lives svc := ⟨[], by simp, rfl⟩
  handles := List.Perm.refl _
  provided p hp := absurd hp (by simp [loadedPlugins, pluginLoaderInit])
  uses := Run.each_nil

/-- Calls that are no collect and no snapshot need no open library. -/
theorem each_of_noUse {Good : List LoaderCall} {more : List LoaderCall}
    (h : ∀ c, .service c ∈ more → c.isUse = false) :
    Run.Each (fun before call => IntoOpenLibrary Provides (Good ++ before) call) more := by
  rintro before call after rfl c rfl huse
  rw [h c (by simp)] at huse
  cases huse

/-- The registered services are those of the loaded plugins. -/
theorem mem_registry_iff (hinv : Inv dir s) {svc : Service} :
    svc ∈ s.registry.list ↔ ∃ p ∈ loadedPlugins s, p.service = svc := by
  obtain ⟨xs, hxs, hperm⟩ := hinv.registered
  rw [hxs.list_eq, hperm.mem_iff, List.mem_map]

theorem nodup_registry (hinv : Inv dir s) (h : LifeInv Provides s) : s.registry.list.Nodup := by
  obtain ⟨xs, hxs, hperm⟩ := hinv.registered
  rw [hxs.list_eq]
  exact hperm.nodup_iff.2 h.nodup

theorem callsOn_init (svc svc' : Service) (ret : Int32) :
    callsOn svc ((initService svc' ret).map .service) =
      if svc' = svc then initService svc' ret else [] := by
  rw [callsOn_service]
  unfold initService
  cases svc'.hasInit with
  | false => simp
  | true => by_cases h : svc' = svc <;> simp [ServiceCall.target, h]

theorem callsOn_destroy (svc svc' : Service) :
    callsOn svc ((destroyService svc').map .service) =
      if svc' = svc then destroyService svc' else [] := by
  rw [callsOn_service]
  unfold destroyService
  cases svc'.hasDestroy with
  | false => simp
  | true => by_cases h : svc' = svc <;> simp [ServiceCall.target, h]

/-- An init that did not fail begins a life, and so does having none. -/
theorem LivesSoFar.begin_of_ok {ret : Int32} (h : LivesSoFar svc false calls)
    (hok : ¬ (svc.hasInit ∧ ret < 0)) : LivesSoFar svc true (calls ++ initService svc ret) := by
  cases hhas : svc.hasInit with
  | false =>
    have hnone (ret : Int32) : initService svc ret = [] := by simp [initService, hhas]
    rw [hnone, ← hnone 0]
    exact h.begin (by decide)
  | true =>
    refine h.begin ?_
    by_contra hneg
    exact hok ⟨hhas, by simpa using hneg⟩

theorem isUse_initService {ret : Int32} {c : ServiceCall} (hc : c ∈ initService svc ret) :
    c.isUse = false := by
  unfold initService at hc
  split at hc
  · rw [List.mem_singleton.1 hc]
    rfl
  · cases hc

theorem isUse_destroyService {c : ServiceCall} (hc : c ∈ destroyService svc) :
    c.isUse = false := by
  unfold destroyService at hc
  split at hc
  · rw [List.mem_singleton.1 hc]
    rfl
  · cases hc

/-! ## Loading -/

section

variable {path : CStr} {env : LoadEnv} {address : Nat} {info : PluginInfo}

/-- What a library brings is not registered yet. -/
theorem not_mem_registry (hinv : Inv dir s) (hdistinct : LibrariesDistinct s path env)
    (hopens : OpensLibrary s path env address info) : info.service ∉ s.registry.list := by
  rw [mem_registry_iff hinv]
  rintro ⟨p, hp, heq⟩
  exact hdistinct address info hopens p hp heq

/-- A load that stores its plugin begins a life of a service that has none. -/
theorem LifeInv.load_stores (hinv : Inv dir s) (h : LifeInv Provides s)
    (hst : Stores s path env address info)
    (hfree : info.service ∉ s.registry.list) (hprov : Provides ⟨address, path⟩ info.service) :
    LifeInv Provides { s with
      plugins := storePlugin s (findPluginByPath s path)
        (newPlugin path ⟨address, path⟩ info env.mtime)
      registry := {
        services := Function.update s.registry.services s.registry.count (some info.service)
        count := s.registry.count + 1 }
      calls := s.calls ++ .dlopen path (some ⟨address, path⟩) ::
        (initService info.service env.initRet).map LoaderCall.service } := by
  obtain ⟨xs, hxs, hperm⟩ := hinv.registered
  set plugin := newPlugin path ⟨address, path⟩ info env.mtime with hplugin
  have hloaded : ((storePlugin s (findPluginByPath s path) plugin).filter (·.loaded)).Perm
      (plugin :: loadedPlugins s) := loaded_storePlugin s path plugin hst.notLoaded rfl
  have hnew : info.service ∉ (loadedPlugins s).map (·.service) := by
    rw [← hperm.mem_iff, ← hxs.list_eq]
    exact hfree
  refine ⟨?_, fun svc => ?_, ?_, fun p hp => ?_, ?_⟩
  · exact (hloaded.map (·.service)).nodup_iff.2 (List.nodup_cons.2 ⟨hnew, h.nodup⟩)
  · have hlist : Registry.list {
        services := Function.update s.registry.services s.registry.count (some info.service)
        count := s.registry.count + 1 } = s.registry.list ++ [info.service] := by
      rw [(hxs.register info.service).list_eq, hxs.list_eq]
    have hcalls : callsOn svc (s.calls ++ .dlopen path (some ⟨address, path⟩) ::
        (initService info.service env.initRet).map LoaderCall.service) =
          callsOn svc s.calls ++
            if info.service = svc then initService info.service env.initRet else [] := by
      rw [callsOn_append, ← callsOn_init]
      rfl
    simp only [hlist, hcalls, List.mem_append, List.mem_singleton]
    by_cases heq : info.service = svc
    · subst heq
      have hbefore := h.lives info.service
      rw [decide_eq_false hfree] at hbefore
      rw [if_pos rfl, decide_eq_true (Or.inr rfl)]
      exact hbefore.begin_of_ok hst.initOk
    · rw [if_neg heq, List.append_nil]
      have hsame : (svc ∈ s.registry.list ∨ svc = info.service) ↔ svc ∈ s.registry.list :=
        or_iff_left (Ne.symm heq)
      simp only [hsame]
      exact h.lives svc
  · have hopen : openHandles (s.calls ++ .dlopen path (some ⟨address, path⟩) ::
        (initService info.service env.initRet).map LoaderCall.service) =
          ⟨address, path⟩ :: openHandles s.calls := by
      rw [← List.singleton_append, ← List.append_assoc, openHandles_service, openHandles_append]
      rfl
    rw [hopen]
    exact (h.handles.cons _).trans (hloaded.filterMap LoadedPlugin.handle).symm
  · rcases List.mem_cons.1 (hloaded.mem_iff.1 hp) with rfl | hp
    · exact ⟨_, rfl, hprov⟩
    · exact h.provided p hp
  · refine h.uses.append (each_of_noUse fun c hc => ?_)
    have hinit : c ∈ initService info.service env.initRet := by simpa using hc
    exact isUse_initService hinit

/-- A load that fails begins no life, and leaves no library open. -/
theorem LifeInv.load_fails (h : LifeInv Provides s)
    (hfree : ∀ address info, OpensLibrary s path env address info →
      info.service ∉ s.registry.list)
    {more : List LoaderCall} (hmore : FailedCalls s path env more) :
    LifeInv Provides { s with calls := s.calls ++ more } := by
  refine ⟨h.nodup, fun svc => ?_, ?_, h.provided, h.uses.append (each_of_noUse fun c hc => ?_)⟩
  · show LivesSoFar svc (decide (svc ∈ s.registry.list)) (callsOn svc (s.calls ++ more))
    rw [callsOn_append]
    have hbefore := h.lives svc
    cases hmore with
    | nothing | notOpened | closed => simpa [callsOn] using hbefore
    | initFailed address info hopens hret =>
      by_cases heq : info.service = svc
      · subst heq
        rw [decide_eq_false (hfree address info hopens)] at hbefore ⊢
        simpa [callsOn, ServiceCall.target] using hbefore.fail hret
      · simpa [callsOn, ServiceCall.target, heq] using hbefore
  · have hsame : openHandles (s.calls ++ more) = openHandles s.calls := by
      rw [openHandles_append]
      cases hmore with
      | nothing | notOpened => rfl
      | closed address => exact List.erase_cons_head _ _
      | initFailed address info => exact List.erase_cons_head _ _
    rw [hsame]
    exact h.handles
  · cases hmore with
    | initFailed =>
      simp only [List.mem_cons, reduceCtorEq, LoaderCall.service.injEq, List.not_mem_nil,
        or_false, false_or] at hc
      rw [hc]
      rfl
    | _ => simp at hc

/-- A load begins one life at most, and only where the service has none. -/
theorem LifeInv.load (hinv : Inv dir s) (h : LifeInv Provides s)
    (hdistinct : LibrariesDistinct s path env)
    (hprov : ∀ address info, env.library = some (address, some info) →
      Provides ⟨address, path⟩ info.service) :
    LifeInv Provides (pluginLoaderLoad s path env).1 := by
  rcases load_spec s path env with ⟨address, info, hst, hs⟩ | ⟨-, more, hmore, hs⟩
  · rw [hs]
    have hopens : OpensLibrary s path env address info := ⟨hst.notLoaded, hst.room, hst.library⟩
    exact h.load_stores hinv hst (not_mem_registry hinv hdistinct hopens)
      (hprov address info hst.library)
  · rw [hs]
    exact h.load_fails (fun address info => not_mem_registry hinv hdistinct) hmore

end

/-! ## Unloading, and cycles -/

/-- An unload ends the life of the service it takes out. -/
theorem LifeInv.unload (hinv : Inv dir s) (h : LifeInv Provides s) (name : CStr) :
    LifeInv Provides (pluginLoaderUnload s name).1 := by
  rcases unload_cases s name with ⟨i, p, hfind, hload, -, hs, hcalls⟩ | ⟨-, hs⟩
  · obtain ⟨xs, hxs, hperm⟩ := hinv.registered
    have hp := (findPlugin_eq_some_iff.1 hfind).1
    have hmem : p ∈ loadedPlugins s := List.mem_filter.2 ⟨List.mem_of_getElem? hp, hload⟩
    have hregistered : p.service ∈ s.registry.list := (mem_registry_iff hinv).2 ⟨p, hmem, rfl⟩
    have hnodup := nodup_registry hinv h
    obtain ⟨handle, hhandle, -⟩ := h.provided p hmem
    have hlist : (pluginLoaderUnload s name).1.registry.list = s.registry.list.erase p.service := by
      rw [hs.registry_eq, (hxs.unregister p.service).list_eq, hxs.list_eq]
    have hloaded : (p :: loadedPlugins (pluginLoaderUnload s name).1).Perm (loadedPlugins s) := by
      rw [loadedPlugins, hs.plugins_eq]
      exact loaded_cleared hp hload none
    have htrace : (pluginLoaderUnload s name).1.calls =
        s.calls ++ (destroyService p.service).map .service ++ [.dlclose handle] := by
      rw [hcalls, svcManagerUnregister_mem hxs (hxs.list_eq ▸ hregistered), hhandle]
      rfl
    refine ⟨?_, fun svc => ?_, ?_, fun q hq => ?_, ?_⟩
    · have hbefore := (hloaded.map (·.service)).nodup_iff.2 h.nodup
      exact (List.nodup_cons.1 hbefore).2
    · rw [hlist, htrace, callsOn_append, callsOn_append, callsOn_destroy]
      have hbefore := h.lives svc
      have hclose : callsOn svc [.dlclose handle] = [] := rfl
      rw [hclose, List.append_nil]
      by_cases heq : p.service = svc
      · subst heq
        have hgone : p.service ∉ s.registry.list.erase p.service := hnodup.not_mem_erase
        rw [decide_eq_true hregistered] at hbefore
        rw [decide_eq_false hgone, if_pos rfl]
        exact hbefore.finish
      · rw [if_neg heq, List.append_nil]
        have hsame : svc ∈ s.registry.list.erase p.service ↔ svc ∈ s.registry.list :=
          List.mem_erase_of_ne (Ne.symm heq)
        simp only [hsame]
        exact hbefore
    · have hopen : openHandles (pluginLoaderUnload s name).1.calls =
          (openHandles s.calls).erase handle := by
        rw [htrace, openHandles_append, openHandles_service]
        rfl
      have hclosed := (h.handles.trans (hloaded.filterMap LoadedPlugin.handle).symm).erase handle
      rwa [← hopen, List.filterMap_cons, hhandle, List.erase_cons_head] at hclosed
    · exact h.provided q (hloaded.mem_iff.1 (List.mem_cons_of_mem p hq))
    · rw [htrace, List.append_assoc]
      refine h.uses.append (each_of_noUse fun c hc => ?_)
      have hdestroy : c ∈ destroyService p.service := by simpa using hc
      exact isUse_destroyService hdestroy
  · rw [hs]
    exact h

/-- The calls of a cycle are collects and snapshots of registered services. -/
theorem mem_cycleCalls {r : Registry} {collectRet : Service → Int32} {c : ServiceCall}
    (hc : c ∈ cycleCalls r collectRet) : c.isUse = true ∧ c.target ∈ r.list := by
  rcases List.mem_append.1 hc with hc | hc
  · obtain ⟨svc, hsvc, hc⟩ := List.mem_flatMap.1 hc
    unfold collectService at hc
    split at hc
    · rw [List.mem_singleton.1 hc]
      exact ⟨rfl, hsvc⟩
    · cases hc
  · obtain ⟨svc, hsvc, hc⟩ := List.mem_flatMap.1 hc
    unfold snapshotService at hc
    split at hc
    · rw [List.mem_singleton.1 hc]
      exact ⟨rfl, hsvc⟩
    · cases hc

/-- A cycle uses the services that are alive. -/
theorem LifeInv.cycle (hinv : Inv dir s) (h : LifeInv Provides s) (collectRet : Service → Int32) :
    LifeInv Provides (runCycle s collectRet) := by
  refine ⟨h.nodup, fun svc => ?_, ?_, h.provided, h.uses.append ?_⟩
  · show LivesSoFar svc (decide (svc ∈ s.registry.list)) (callsOn svc (s.calls ++ _))
    rw [callsOn_append, callsOn_service]
    have hbefore := h.lives svc
    have huses : ∀ c ∈ (cycleCalls s.registry collectRet).filter fun c => c.target = svc,
        c.isUse = true ∧ c.target = svc := by
      intro c hc
      obtain ⟨hc, htarget⟩ := List.mem_filter.1 hc
      exact ⟨(mem_cycleCalls hc).1, by simpa using htarget⟩
    by_cases hsvc : svc ∈ s.registry.list
    · rw [decide_eq_true hsvc] at hbefore ⊢
      exact hbefore.use huses
    · have hnone : ((cycleCalls s.registry collectRet).filter fun c => c.target = svc) = [] := by
        refine List.filter_eq_nil_iff.2 fun c hc htarget => hsvc ?_
        have heq : c.target = svc := by simpa using htarget
        exact heq ▸ (mem_cycleCalls hc).2
      rw [hnone, List.append_nil]
      exact hbefore
  · show (openHandles (s.calls ++ _)).Perm _
    rw [openHandles_service]
    exact h.handles
  · intro before call after hsplit c hcall huse
    obtain ⟨pre, post, hcalls, rfl, hpost⟩ := List.map_eq_append_iff.1 hsplit
    obtain ⟨c', post', rfl, hc', -⟩ := List.map_eq_cons_iff.1 hpost
    obtain rfl : c' = c := LoaderCall.service.inj (hc'.trans hcall)
    have hmem : c' ∈ cycleCalls s.registry collectRet := by rw [hcalls]; simp
    obtain ⟨p, hp, hservice⟩ := (mem_registry_iff hinv).1 (mem_cycleCalls hmem).2
    obtain ⟨handle, hhandle, hprov⟩ := h.provided p hp
    refine ⟨handle, hservice ▸ hprov, ?_⟩
    rw [openHandles_service]
    exact h.handles.mem_iff.2 (List.mem_filterMap.2 ⟨p, hp, hhandle⟩)

/-! ## Runs and their shutdown -/

/-- What a step must be given: the library it opens, if it opens one, brings a service of its
own, and `Provides` knows. -/
def StepOk (Provides : Handle → Service → Prop) (s : PluginLoader) (step : DaemonStep) : Prop :=
  ∀ a, step = .loader a → LoadOk (fun t path env => LibrariesDistinct t path env ∧
    ∀ address info, env.library = some (address, some info) →
      Provides ⟨address, path⟩ info.service) s a

theorem LifeInv.apply (hinv : Inv dir s) (h : LifeInv Provides s) (step : DaemonStep)
    (hok : StepOk Provides s step) : LifeInv Provides (step.apply s) := by
  cases step with
  | loader a =>
    obtain ⟨t, ht, hstep⟩ := a.apply_cases s
    have ⟨hinv, h⟩ : Inv dir t ∧ LifeInv Provides t := by
      rcases ht with rfl | ⟨name, rfl⟩
      · exact ⟨hinv, h⟩
      · exact ⟨hinv.unload name, h.unload hinv name⟩
    rcases hstep with ⟨-, hs⟩ | ⟨path, env, hl, hs⟩
    · rw [DaemonStep.apply, hs]
      exact h
    · obtain ⟨hdistinct, hprov⟩ := hok a rfl t path env hl
      rw [DaemonStep.apply, hs]
      exact h.load hinv hdistinct hprov
  | startWatcher initOk watchOk =>
    simp only [DaemonStep.apply, pluginLoaderStartWatcher]
    split
    · exact ⟨h.nodup, h.lives, h.handles, h.provided, h.uses⟩
    · exact ⟨h.nodup, h.lives, h.handles, h.provided, h.uses⟩
  | cycle collectRet => exact h.cycle hinv collectRet

theorem inv_step (h : Inv dir s) (step : DaemonStep) : Inv dir (step.apply s) := by
  cases step with
  | loader a => exact h.apply a
  | startWatcher initOk watchOk =>
    simp only [DaemonStep.apply, pluginLoaderStartWatcher]
    split
    · exact ⟨h.pluginDir_eq, h.registered, h.faithful, h.short, h.firstPath⟩
    · exact ⟨h.pluginDir_eq, h.registered, h.faithful, h.short, h.firstPath⟩
  | cycle collectRet => exact ⟨h.pluginDir_eq, h.registered, h.faithful, h.short, h.firstPath⟩

/-- The loader's shutdown is a sequence of unloads. -/
theorem LifeInv.shutdown (hinv : Inv dir s) (h : LifeInv Provides s) :
    Inv dir (pluginLoaderShutdown s) ∧ LifeInv Provides (pluginLoaderShutdown s) := by
  have hloop (is : List Nat) (t : PluginLoader) (hinv : Inv dir t) (h : LifeInv Provides t) :
      Inv dir (is.foldl shutdownPlugin t) ∧ LifeInv Provides (is.foldl shutdownPlugin t) := by
    induction is generalizing t with
    | nil => exact ⟨hinv, h⟩
    | cons i is ih =>
      rw [List.foldl_cons]
      have hone : Inv dir (shutdownPlugin t i) ∧ LifeInv Provides (shutdownPlugin t i) := by
        unfold shutdownPlugin
        split
        · exact ⟨hinv, h⟩
        · split
          · exact ⟨hinv.unload _, h.unload hinv _⟩
          · exact ⟨hinv, h⟩
      exact ih _ hone.1 hone.2
  exact hloop _ _ ⟨hinv.pluginDir_eq, hinv.registered, hinv.faithful, hinv.short, hinv.firstPath⟩
    ⟨h.nodup, h.lives, h.handles, h.provided, h.uses⟩

/-- The manager's shutdown destroys each service that is left once. -/
theorem callsOn_destroyAll (svc : Service) {xs : List Service} (h : xs.Nodup) :
    callsOn svc ((xs.flatMap destroyService).map .service) =
      if svc ∈ xs then destroyService svc else [] := by
  induction xs with
  | nil => rfl
  | cons x xs ih =>
    obtain ⟨hx, hxs⟩ := List.nodup_cons.1 h
    rw [List.flatMap_cons, List.map_append, callsOn_append, callsOn_destroy, ih hxs]
    by_cases heq : x = svc
    · subst heq
      rw [if_pos rfl, if_neg hx, if_pos List.mem_cons_self, List.append_nil]
    · rw [if_neg heq, List.nil_append]
      have hsame : svc ∈ x :: xs ↔ svc ∈ xs := by
        rw [List.mem_cons, or_iff_right (Ne.symm heq)]
      simp only [hsame]

/-- After the shutdown no life is left open. -/
theorem lives_daemonShutdown (enablePlugins : Bool) (hinv : Inv dir s) (h : LifeInv Provides s)
    (svc : Service) : Lives svc (callsOn svc (daemonShutdown enablePlugins s).calls) := by
  have hmanager (t : PluginLoader) (hinv : Inv dir t) (h : LifeInv Provides t) :
      Lives svc (callsOn svc
        (t.calls ++ (t.registry.list.flatMap destroyService).map LoaderCall.service)) := by
    rw [callsOn_append, callsOn_destroyAll svc (nodup_registry hinv h)]
    have hbefore := h.lives svc
    by_cases hsvc : svc ∈ t.registry.list
    · rw [decide_eq_true hsvc] at hbefore
      rw [if_pos hsvc]
      exact hbefore.finish
    · rw [decide_eq_false hsvc] at hbefore
      rw [if_neg hsvc, List.append_nil]
      exact hbefore
  cases enablePlugins with
  | false => exact hmanager s hinv h
  | true => exact hmanager _ (h.shutdown hinv).1 (h.shutdown hinv).2

/-- The shutdown makes no collects and no snapshots. -/
theorem uses_daemonShutdown (enablePlugins : Bool) (hinv : Inv dir s) (h : LifeInv Provides s) :
    Run.Each (IntoOpenLibrary Provides) (daemonShutdown enablePlugins s).calls := by
  have hmanager (t : PluginLoader) (h : LifeInv Provides t) : Run.Each (IntoOpenLibrary Provides)
      (t.calls ++ (t.registry.list.flatMap destroyService).map LoaderCall.service) := by
    refine h.uses.append (each_of_noUse fun c hc => ?_)
    obtain ⟨c', hc', heq⟩ := List.mem_map.1 hc
    obtain ⟨svc, -, hdestroy⟩ := List.mem_flatMap.1 hc'
    obtain rfl := LoaderCall.service.inj heq
    exact isUse_destroyService hdestroy
  cases enablePlugins with
  | false => exact hmanager s h
  | true => exact hmanager _ (h.shutdown hinv).2

/-- A load of the run has opened the library `h`, and `svc` is the service it exports. -/
def RunProvides (dir : CStr) (steps : List DaemonStep) (h : Handle) (svc : Service) : Prop :=
  ∃ (k : Nat) (a : LoaderAction) (t : PluginLoader) (path : CStr) (env : LoadEnv) (address : Nat)
    (info : PluginInfo), steps[k]? = some (.loader a) ∧
    a.loads (daemonState dir (steps.take k)) = some (t, path, env) ∧
    env.library = some (address, some info) ∧ h = ⟨address, path⟩ ∧ info.service = svc

/-- Every library that a load of the run opens brings a service that no plugin loaded at that
moment has. -/
def RunDistinct (dir : CStr) (steps : List DaemonStep) : Prop :=
  ∀ k a, steps[k]? = some (.loader a) →
    LoadOk LibrariesDistinct (daemonState dir (steps.take k)) a

theorem lifeInv_daemonState {steps : List DaemonStep} (h : RunDistinct dir steps) :
    Inv (pluginLoaderInit dir).pluginDir (daemonState dir steps) ∧
      LifeInv (RunProvides dir steps) (daemonState dir steps) := by
  have hok : ∀ k step, steps[k]? = some step →
      StepOk (RunProvides dir steps) (daemonState dir (steps.take k)) step := by
    intro k step hk a ha t path env hl
    subst ha
    exact ⟨h k a hk t path env hl,
      fun address info hlib => ⟨k, a, t, path, env, address, info, hk, hl, hlib, rfl, rfl⟩⟩
  exact Run.invariant_of_ok (I := fun s => Inv (pluginLoaderInit dir).pluginDir s ∧
      LifeInv (RunProvides dir steps) s) ⟨inv_init dir, lifeInv_init dir⟩
    (fun s step h hok => ⟨inv_step h.1 step, h.2.apply h.1 step hok⟩) steps hok

/-- The calls the daemon makes from its start to its end. -/
def daemonTrace (run : DaemonRun) : List LoaderCall :=
  (daemonShutdown run.enablePlugins (daemonRun run)).calls

/-- **In every run the calls on a service are complete lives**, with failed inits between them,
and every collect and snapshot goes into an open library that provides the service. -/
theorem services_live_completely (run : DaemonRun) (hdistinct : RunDistinct run.dir run.steps) :
    (∀ svc, Lives svc (callsOn svc (daemonTrace run))) ∧
      Run.Each (IntoOpenLibrary (RunProvides run.dir run.steps)) (daemonTrace run) := by
  obtain ⟨hinv, hlife⟩ := lifeInv_daemonState hdistinct
  rw [daemonTrace, daemonRun_eq]
  exact ⟨lives_daemonShutdown run.enablePlugins hinv hlife,
    uses_daemonShutdown run.enablePlugins hinv hlife⟩

/-! ## A failed init -/

def lonelyService : Service where
  object := 1
  name := .lit "s"
  ops := some { init := true, collect := true, snapshot := true, destroy := true }
  enabled := true

/-- A daemon that finds one plugin, whose init returns `initRet`, and runs one turn. -/
def lonelyRun (initRet : Int32) : DaemonRun where
  dir := .lit "/p"
  enablePlugins := true
  entries := [(.lit "a.so", {
    library := some (1, some {
      apiVersion := pluginApiVersion, name := .lit "x", service := lonelyService })
    initRet := initRet
    mtime := 0 })]
  initOk := true
  watchOk := true
  turns := [{ collectRet := fun _ => 0, events := [] }]

theorem lonelyRun_distinct (initRet : Int32) :
    RunDistinct (lonelyRun initRet).dir (lonelyRun initRet).steps := by
  intro k a hk t path env hl address info hopens p hp
  match k with
  | 0 =>
    cases hk
    cases hl
    exact absurd hp (by simp [loadedPlugins, daemonState, pluginLoaderInit])
  | 1 => cases hk
  | 2 => cases hk
  | k + 3 => cases hk

theorem services_live_completely_once :
    Lives lonelyService (callsOn lonelyService (daemonTrace (lonelyRun 0))) :=
  (services_live_completely (lonelyRun 0) (lonelyRun_distinct 0)).1 lonelyService

/-- **A failed init is no complete life.** -/
theorem failedInit_no_life :
    RunDistinct (lonelyRun (-1)).dir (lonelyRun (-1)).steps ∧
      ¬ ∀ svc, ∃ lives : List (List ServiceCall),
        (∀ life ∈ lives, CompleteLife svc life) ∧
          callsOn svc (daemonTrace (lonelyRun (-1))) = lives.flatten := by
  refine ⟨lonelyRun_distinct (-1), fun h => ?_⟩
  obtain ⟨lives, hlives, htrace⟩ := h lonelyService
  have hcalls : callsOn lonelyService (daemonTrace (lonelyRun (-1))) =
      [.init lonelyService (-1)] := by decide +kernel
  rw [hcalls] at htrace
  cases lives with
  | nil => cases htrace
  | cons life lives =>
    obtain ⟨ret, uses, -, -, hlife⟩ := hlives life List.mem_cons_self
    -- a complete life of this service has two calls at least
    have hlen := congrArg List.length htrace
    rw [List.flatten_cons, hlife] at hlen
    have hinit : (initService lonelyService ret).length = 1 := rfl
    have hdestroy : (destroyService lonelyService).length = 1 := rfl
    simp only [List.length_append, List.length_singleton, hinit, hdestroy] at hlen
    omega

end Qmem
