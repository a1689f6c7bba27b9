import Qmem.Daemon.ServiceManager
import Qmem.Lib.Run

/-!
# Looking services up, and what is called of them

The registry is an array with a count, and stands for a list: a service that registers comes to
its end, one that unregisters is taken out where it comes first. The same service may register
twice; it is initialized and destroyed once for each of its places.

Main result: `registry_follows_calls`.
-/

namespace Qmem

open CLib

/-! ## Lookups -/

def svcManagerCount (r : Registry) : Nat := r.count

/-- `svc_manager_get`. -/
def svcManagerGet (r : Registry) (name : CStr) : Option Service :=
  ((List.range r.count).find? fun i => (r.services i).any fun svc => svc.name = name).bind
    r.services

/-- `svc_manager_get_index`. -/
def svcManagerGetIndex (r : Registry) (index : Int32) : Option Service :=
  if index.toInt < 0 ∨ index.toInt ≥ r.count then none else r.services index.toInt.toNat

theorem find_range {α : Type} (p : α → Bool) (xs : List α) :
    ((List.range xs.length).find? fun i => xs[i]?.any p).bind (xs[·]?) = xs.find? p := by
  induction xs using List.reverseRecOn with
  | nil => rfl
  | append_singleton xs x ih =>
    have hfront (i : Nat) (hi : i < xs.length) : (xs ++ [x])[i]? = xs[i]? :=
      List.getElem?_append_left hi
    have hfind : ((List.range xs.length).find? fun i => (xs ++ [x])[i]?.any p) =
        (List.range xs.length).find? fun i => xs[i]?.any p :=
      List.find?_congr fun i hi => by rw [hfront i (List.mem_range.1 hi)]
    rw [List.length_append, List.length_singleton, List.range_succ, List.find?_append, hfind,
      List.find?_append, ← ih]
    cases hfound : (List.range xs.length).find? fun i => xs[i]?.any p with
    | some i =>
      have hi : i < xs.length := List.mem_range.1 (List.mem_of_find?_eq_some hfound)
      obtain ⟨y, hy⟩ : ∃ y, xs[i]? = some y := ⟨xs[i], List.getElem?_eq_getElem hi⟩
      simp [hfront i hi, hy]
    | none =>
      by_cases hp : p x = true
      · simp [hp]
      · simp [hp]

theorem Registry.Holds.get {r : Registry} {xs : List Service} (h : r.Holds xs) (name : CStr) :
    svcManagerGet r name = xs.find? fun svc => svc.name = name := by
  rw [← find_range, svcManagerGet, h.count_eq]
  have hfind : ((List.range xs.length).find? fun i =>
      (r.services i).any fun svc => svc.name = name) =
        (List.range xs.length).find? fun i => xs[i]?.any fun svc => svc.name = name :=
    List.find?_congr fun i hi => by rw [h.services_eq i (List.mem_range.1 hi)]
  rw [hfind]
  cases hfound : (List.range xs.length).find? fun i =>
      xs[i]?.any fun svc => svc.name = name with
  | none => rfl
  | some i => exact h.services_eq i (List.mem_range.1 (List.mem_of_find?_eq_some hfound))

theorem Registry.Holds.getIndex {r : Registry} {xs : List Service} (h : r.Holds xs)
    (index : Int32) : svcManagerGetIndex r index =
      if index.toInt < 0 then none else xs[index.toInt.toNat]? := by
  rw [svcManagerGetIndex, h.count_eq]
  by_cases hneg : index.toInt < 0
  · rw [if_pos (Or.inl hneg), if_pos hneg]
  · rw [if_neg hneg]
    by_cases hhigh : index.toInt ≥ xs.length
    · rw [if_pos (Or.inr hhigh), List.getElem?_eq_none (by omega)]
    · rw [if_neg (by omega), h.services_eq _ (by omega)]

/-! ## Runs -/

/-- What is asked of the manager; `initRet` is what the service's init returns, if it is called. -/
inductive RegistryEvent where
  | register (svc : Service) (initRet : Int32)
  | unregister (svc : Service)
  | shutdown

/-- The registry, with the callbacks that have been called. -/
structure Managed where
  registry : Registry
  calls : List ServiceCall

def Managed.init : Managed := ⟨.init, []⟩

def Managed.step (s : Managed) : RegistryEvent → Managed
  | .register svc initRet =>
    let (registry, calls, _) := svcManagerRegister s.registry svc initRet
    ⟨registry, s.calls ++ calls⟩
  | .unregister svc =>
    let (registry, calls, _) := svcManagerUnregister s.registry svc
    ⟨registry, s.calls ++ calls⟩
  | .shutdown =>
    let (registry, calls) := svcManagerShutdown s.registry
    ⟨registry, s.calls ++ calls⟩

/-- The same for a list. -/
def registeredStep (xs : List Service) : RegistryEvent → List Service
  | .register svc initRet =>
    if xs.length ≥ maxServices ∨ (svc.hasInit = true ∧ initRet < 0) then xs else xs ++ [svc]
  | .unregister svc => xs.erase svc
  | .shutdown => []

/-- A call that has initialized the service. -/
def ServiceCall.initializes (svc : Service) : ServiceCall → Bool
  | .init svc' ret => svc' = svc && decide (0 ≤ ret)
  | _ => false

/-- A service with both callbacks has been initialized once for each time that it was destroyed,
and once for each place in the list. -/
def Balanced (xs : List Service) (calls : List ServiceCall) : Prop :=
  ∀ svc : Service, svc.hasInit = true → svc.hasDestroy = true →
    calls.countP (ServiceCall.initializes svc) = calls.count (.destroy svc) + xs.count svc

structure Managed.Follows (s : Managed) (xs : List Service) : Prop where
  holds : s.registry.Holds xs
  room : xs.length ≤ maxServices
  balanced : Balanced xs s.calls

theorem Managed.follows_init : Managed.init.Follows [] :=
  ⟨Registry.holds_init, Nat.zero_le _, fun _ _ _ => rfl⟩

/-- The destroy calls of a list of services. -/
theorem count_destroys {svc : Service} (hdestroy : svc.hasDestroy = true) (xs : List Service) :
    (xs.flatMap destroyService).count (.destroy svc) = xs.count svc := by
  induction xs with
  | nil => rfl
  | cons x xs ih =>
    rw [List.flatMap_cons, List.count_append, ih, List.count_cons, Nat.add_comm, destroyService]
    by_cases hx : x = svc
    · rw [hx, if_pos hdestroy]
      simp
    · by_cases hcall : x.hasDestroy = true
      · simp [hcall, hx]
      · simp [hcall, hx]

theorem countP_destroys (svc : Service) (xs : List Service) :
    (xs.flatMap destroyService).countP (ServiceCall.initializes svc) = 0 := by
  rw [List.countP_eq_zero]
  intro c hc
  obtain ⟨x, -, hx⟩ := List.mem_flatMap.1 hc
  rw [destroyService] at hx
  split at hx
  · rw [List.mem_singleton.1 hx]
    simp [ServiceCall.initializes]
  · exact absurd hx List.not_mem_nil

/-- **One request** keeps the array, the list and the calls in step. -/
theorem Managed.Follows.step {s : Managed} {xs : List Service} (h : s.Follows xs)
    (event : RegistryEvent) : (s.step event).Follows (registeredStep xs event) := by
  have hcount : s.registry.count = xs.length := h.holds.count_eq
  cases event with
  | register svc initRet =>
    rw [Managed.step, registeredStep, svcManagerRegister, hcount]
    by_cases hfull : xs.length ≥ maxServices
    · rw [if_pos hfull, if_pos (Or.inl hfull)]
      exact ⟨h.holds, h.room, by simpa using h.balanced⟩
    · rw [if_neg hfull]
      by_cases hfails : svc.hasInit = true ∧ initRet < 0
      · rw [if_pos hfails, if_pos (Or.inr hfails)]
        refine ⟨h.holds, h.room, fun svc' hinit hdestroy => ?_⟩
        have hneg : ¬ 0 ≤ initRet := by
          rw [Int32.not_le]
          exact hfails.2
        show (s.calls ++ [_]).countP _ = (s.calls ++ [_]).count _ + _
        rw [List.countP_append, List.count_append, h.balanced svc' hinit hdestroy]
        simp [ServiceCall.initializes, hneg]
      · have hgoes : ¬ (xs.length ≥ maxServices ∨ (svc.hasInit = true ∧ initRet < 0)) := by
          rw [not_or]
          exact ⟨hfull, hfails⟩
        rw [if_neg hfails, if_neg hgoes]
        refine ⟨?_, ?_, fun svc' hinit hdestroy => ?_⟩
        · show Registry.Holds ⟨_, _⟩ _
          have hadded := h.holds.register svc
          rwa [hcount] at hadded
        · rw [List.length_append, List.length_singleton]
          omega
        · have hbalanced := h.balanced svc' hinit hdestroy
          show (s.calls ++ _).countP _ = (s.calls ++ _).count _ + (xs ++ [svc]).count svc'
          rw [List.countP_append, List.count_append, List.count_append, hbalanced]
          by_cases hsame : svc = svc'
          · subst hsame
            have hnonneg : 0 ≤ initRet := by
              rw [← Int32.not_lt]
              exact fun hneg => hfails ⟨hinit, hneg⟩
            rw [if_pos hinit]
            simp [ServiceCall.initializes, hnonneg]
            omega
          · by_cases hcall : svc.hasInit = true
            · simp [hcall, ServiceCall.initializes, hsame]
            · simp [hcall, hsame]
  | unregister svc =>
    refine ⟨h.holds.unregister svc, ?_, fun svc' hinit hdestroy => ?_⟩
    · exact (List.length_erase_le).trans h.room
    · have hbalanced := h.balanced svc' hinit hdestroy
      show (s.calls ++ (svcManagerUnregister s.registry svc).2.1).countP _ =
        (s.calls ++ (svcManagerUnregister s.registry svc).2.1).count _ + (xs.erase svc).count svc'
      rw [List.countP_append, List.count_append, hbalanced]
      by_cases hmem : svc ∈ xs
      · rw [svcManagerUnregister_mem h.holds hmem, List.count_erase]
        by_cases hsame : svc = svc'
        · subst hsame
          have hpos : 0 < xs.count svc := List.count_pos_iff.2 hmem
          simp [hdestroy, ServiceCall.initializes]
          omega
        · by_cases hcall : svc.hasDestroy = true
          · simp [hcall, ServiceCall.initializes, hsame]
          · simp [hcall, hsame]
      · have hnone : findService s.registry svc = none := by
          rw [findService_eq h.holds]
          exact List.idxOf?_eq_none_iff.2 hmem
        rw [svcManagerUnregister, hnone, List.erase_of_not_mem hmem]
        simp
  | shutdown =>
    refine ⟨⟨rfl, fun i hi => absurd hi (Nat.not_lt_zero i)⟩, Nat.zero_le _,
      fun svc hinit hdestroy => ?_⟩
    show (s.calls ++ s.registry.list.flatMap destroyService).countP _ =
      (s.calls ++ s.registry.list.flatMap destroyService).count _ + 0
    rw [h.holds.list_eq, List.countP_append, List.count_append, countP_destroys,
      count_destroys hdestroy, h.balanced svc hinit hdestroy]

/-- **The registry follows its list** through any requests, whatever the services' init functions
return: `svc_manager_count` is its length and never more than the array holds, `svc_manager_get`
returns its first service of that name, `svc_manager_get_index` its services by their places, and a
service has been initialized once for each of its places and for each time that it was
destroyed. -/
theorem registry_follows_calls (events : List RegistryEvent) :
    let s := Run.state Managed.step Managed.init events
    let xs := events.foldl registeredStep []
    svcManagerCount s.registry = xs.length ∧ xs.length ≤ maxServices ∧
      (∀ name, svcManagerGet s.registry name = xs.find? fun svc => svc.name = name) ∧
      (∀ index, svcManagerGetIndex s.registry index =
        if index.toInt < 0 then none else xs[index.toInt.toNat]?) ∧
      Balanced xs s.calls := by
  have hfollows : (Run.state Managed.step Managed.init events).Follows
      (events.foldl registeredStep []) := by
    induction events using List.reverseRecOn with
    | nil => exact Managed.follows_init
    | append_singleton events event ih =>
      rw [Run.state_append, List.foldl_append]
      exact ih.step event
  exact ⟨hfollows.holds.count_eq, hfollows.room, hfollows.holds.get, hfollows.holds.getIndex,
    hfollows.balanced⟩

end Qmem
