import Qmem.Builder

/-!
# The service manager (`daemon/service_manager.c`)

The registry is an array of pointers with a count. Behind a pointer is a service object, whose
constant fields are those of `Service`; so two pointers are equal when the services are. What a
service keeps in its private data is not looked at here: its snapshot function is given by the
calls it makes.
-/

namespace Qmem

open CLib

def maxServices : Nat := 16

/-- Which of the `qmem_service_ops_t` callbacks are not NULL. -/
structure ServiceOps where
  init : Bool
  collect : Bool
  snapshot : Bool
  destroy : Bool
deriving DecidableEq

/-- `qmem_service_t`; `object` tells apart services that agree in everything else. -/
structure Service where
  object : Nat
  name : CStr
  ops : Option ServiceOps
  enabled : Bool
deriving DecidableEq

namespace Service

def hasInit (svc : Service) : Bool := svc.ops.any (·.init)
def hasCollect (svc : Service) : Bool := svc.ops.any (·.collect)
def hasSnapshot (svc : Service) : Bool := svc.ops.any (·.snapshot)
def hasDestroy (svc : Service) : Bool := svc.ops.any (·.destroy)

end Service

/-- A callback that is called, with its result. -/
inductive ServiceCall where
  | init (svc : Service) (ret : Int32)
  | collect (svc : Service) (ret : Int32)
  | snapshot (svc : Service)
  | destroy (svc : Service)
deriving DecidableEq

/-- `g_services` and `g_service_count`. -/
structure Registry where
  services : Nat → Option Service
  count : Nat

namespace Registry

def init : Registry where
  services _ := none
  count := 0

/-- The registered services, in order. -/
def list (r : Registry) : List Service := (List.range r.count).filterMap r.services

end Registry

/-- `svc_manager_register`, where the service's init returns `initRet`; with the calls it makes
and its result. -/
def svcManagerRegister (r : Registry) (svc : Service) (initRet : Int32) :
    Registry × List ServiceCall × Int32 :=
  if r.count ≥ maxServices then (r, [], -1)
  else if svc.hasInit ∧ initRet < 0 then (r, [.init svc initRet], initRet)
  else
    ({ services := Function.update r.services r.count (some svc), count := r.count + 1 },
      if svc.hasInit then [.init svc initRet] else [], 0)

/-- The loop that finds the index of a service. -/
def findService (r : Registry) (svc : Service) : Option Nat :=
  (List.range r.count).find? fun i => r.services i = some svc

/-- The loop that closes the gap at `idx`. -/
def shiftServices (r : Registry) (idx : Nat) : Nat → Option Service :=
  (List.range' idx (r.count - 1 - idx)).foldl
    (fun services i => Function.update services i (services (i + 1))) r.services

/-- `svc_manager_unregister`, with the calls it makes and its result. -/
def svcManagerUnregister (r : Registry) (svc : Service) :
    Registry × List ServiceCall × Int32 :=
  match findService r svc with
  | none => (r, [], -1)
  | some idx =>
    ({ services := shiftServices r idx, count := r.count - 1 },
      if svc.hasDestroy then [.destroy svc] else [], 0)

/-- What the loop of `svc_manager_collect_all` calls for one service; `collectRet` is what the
collect functions return. -/
def collectService (collectRet : Service → Int32) (svc : Service) : List ServiceCall :=
  if svc.enabled ∧ svc.hasCollect then [.collect svc (collectRet svc)] else []

/-- `svc_manager_collect_all`: its calls, and the number of errors. -/
def svcManagerCollectAll (r : Registry) (collectRet : Service → Int32) : List ServiceCall × Nat :=
  (r.list.flatMap (collectService collectRet),
    r.list.countP fun svc => svc.enabled ∧ svc.hasCollect ∧ collectRet svc < 0)

/-- The call that `svc_manager_snapshot_all` makes for one service. -/
def snapshotService (svc : Service) : List ServiceCall :=
  if svc.enabled ∧ svc.hasSnapshot then [.snapshot svc] else []

/-- The call of init when a service is registered. -/
def initService (svc : Service) (initRet : Int32) : List ServiceCall :=
  if svc.hasInit then [.init svc initRet] else []

def destroyService (svc : Service) : List ServiceCall :=
  if svc.hasDestroy then [.destroy svc] else []

/-- `svc_manager_shutdown`, with its calls. -/
def svcManagerShutdown (r : Registry) : Registry × List ServiceCall :=
  ({ r with count := 0 }, r.list.flatMap destroyService)

/-! ## Snapshots -/

/-- What the loop of `svc_manager_snapshot_all` writes for one service; `snapshot` are the calls
of its snapshot function. -/
def serviceCalls {δ : Type} (snapshot : Service → List (JsonCall δ)) (svc : Service) :
    List (JsonCall δ) :=
  if svc.enabled then
    .key svc.name :: (if svc.hasSnapshot then snapshot svc else [.null])
  else []

/-- `svc_manager_snapshot_all` at the time `now`. -/
def svcManagerSnapshotAll {δ : Type} (snapshot : Service → List (JsonCall δ)) (r : Registry)
    (now : Int64) : List (JsonCall δ) :=
  objectCalls [
    [.kvInt (.lit "timestamp") now],
    .key (.lit "services") :: objectCalls [r.list.flatMap (serviceCalls snapshot)]]

/-! ## The registry as a list -/

/-- The array holds exactly the services `xs`, without a gap. -/
structure Registry.Holds (r : Registry) (xs : List Service) : Prop where
  count_eq : r.count = xs.length
  services_eq : ∀ i < xs.length, r.services i = xs[i]?

theorem Registry.holds_init : Registry.init.Holds [] := ⟨rfl, fun i hi => absurd hi (by simp)⟩

theorem Registry.Holds.list_eq {r : Registry} {xs : List Service} (h : r.Holds xs) :
    r.list = xs := by
  rw [Registry.list, h.count_eq]
  have hget : ∀ i ∈ List.range xs.length, r.services i = xs[i]? := fun i hi =>
    h.services_eq i (List.mem_range.1 hi)
  rw [List.filterMap_congr hget]
  clear hget h
  induction xs using List.reverseRecOn with
  | nil => rfl
  | append_singleton xs x ih =>
    have hfront : ∀ i ∈ List.range xs.length, (xs ++ [x])[i]? = xs[i]? := fun i hi =>
      List.getElem?_append_left (List.mem_range.1 hi)
    rw [List.length_append, List.length_singleton, List.range_succ, List.filterMap_append,
      List.filterMap_congr hfront, ih]
    simp

/-- A registry of the given services. -/
def Registry.of (xs : List Service) : Registry where
  services i := xs[i]?
  count := xs.length

theorem Registry.holds_of (xs : List Service) : (Registry.of xs).Holds xs :=
  ⟨rfl, fun _ _ => rfl⟩

theorem Registry.list_of (xs : List Service) : (Registry.of xs).list = xs :=
  (Registry.holds_of xs).list_eq

theorem Registry.Holds.register {r : Registry} {xs : List Service} (h : r.Holds xs)
    (svc : Service) :
    Registry.Holds
      { services := Function.update r.services r.count (some svc), count := r.count + 1 }
      (xs ++ [svc]) where
  count_eq := by simp [h.count_eq]
  services_eq i hi := by
    rw [List.length_append, List.length_singleton] at hi
    rcases Nat.lt_succ_iff_lt_or_eq.1 hi with hi | rfl
    · rw [List.getElem?_append_left hi, ← h.services_eq i hi]
      exact Function.update_of_ne (by rw [h.count_eq]; omega) _ _
    · rw [List.getElem?_concat_length, h.count_eq]
      exact Function.update_self _ _ _

/-- The shift moves the slots behind `idx` down by one. -/
theorem foldl_shift (services : Nat → Option Service) (idx n i : Nat) :
    (List.range' idx n).foldl
      (fun services i => Function.update services i (services (i + 1))) services i =
      if idx ≤ i ∧ i < idx + n then services (i + 1) else services i := by
  induction n generalizing services idx with
  | zero =>
    rw [if_neg (by omega)]
    rfl
  | succ n ih =>
    rw [List.range'_succ, List.foldl_cons, ih]
    by_cases h₁ : idx + 1 ≤ i ∧ i < idx + 1 + n
    · rw [if_pos h₁, if_pos (by omega), Function.update_of_ne (by omega)]
    · rw [if_neg h₁]
      by_cases h₂ : i = idx
      · rw [h₂, Function.update_self, if_pos (by omega)]
      · rw [Function.update_of_ne h₂, if_neg (by omega)]

theorem findService_eq {r : Registry} {xs : List Service} (h : r.Holds xs) (svc : Service) :
    findService r svc = xs.idxOf? svc := by
  cases hfind : findService r svc with
  | none =>
    refine (List.idxOf?_eq_none_iff.2 fun hmem => ?_).symm
    obtain ⟨i, hi⟩ := List.mem_iff_getElem?.1 hmem
    have hlt := (List.getElem?_eq_some_iff.1 hi).1
    have hno := List.find?_eq_none.1 hfind i (List.mem_range.2 (by rw [h.count_eq]; exact hlt))
    rw [h.services_eq i hlt, hi] at hno
    simp at hno
  | some i =>
    obtain ⟨hp, hi, hfirst⟩ := List.find?_range_eq_some.1 hfind
    have hlt : i < xs.length := by rw [← h.count_eq]; exact List.mem_range.1 hi
    rw [h.services_eq i hlt, List.getElem?_eq_getElem hlt] at hp
    refine (List.idxOf?_eq_some_iff.2 ⟨hlt, by simpa using hp, fun j hj => ?_⟩).symm
    have hno := hfirst j hj
    rw [h.services_eq j (by omega), List.getElem?_eq_getElem (by omega)] at hno
    simpa using hno

/-- Unregistering removes the first pointer to the service. -/
theorem Registry.Holds.unregister {r : Registry} {xs : List Service} (h : r.Holds xs)
    (svc : Service) : (svcManagerUnregister r svc).1.Holds (xs.erase svc) := by
  rw [List.erase_eq_eraseIdx, ← findService_eq h]
  unfold svcManagerUnregister
  cases hfind : findService r svc with
  | none => exact h
  | some idx =>
    rw [findService_eq h] at hfind
    obtain ⟨hlt, -⟩ := List.idxOf?_eq_some_iff.1 hfind
    refine ⟨by rw [List.length_eraseIdx_of_lt hlt, ← h.count_eq], fun i hi => ?_⟩
    rw [List.length_eraseIdx_of_lt hlt] at hi
    show shiftServices r idx i = _
    rw [shiftServices, foldl_shift, List.getElem?_eraseIdx, h.count_eq]
    by_cases hi' : i < idx
    · rw [if_neg (by omega), if_pos hi', h.services_eq i (by omega)]
    · rw [if_pos (by omega), if_neg hi', h.services_eq (i + 1) (by omega)]

theorem svcManagerUnregister_mem {r : Registry} {xs : List Service} (h : r.Holds xs)
    {svc : Service} (hmem : svc ∈ xs) :
    (svcManagerUnregister r svc).2 = (if svc.hasDestroy then [.destroy svc] else [], 0) := by
  unfold svcManagerUnregister
  cases hfind : findService r svc with
  | none =>
    rw [findService_eq h] at hfind
    exact absurd hmem (List.idxOf?_eq_none_iff.1 hfind)
  | some idx => rfl

end Qmem
