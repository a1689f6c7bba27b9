import Qmem.Daemon.ServiceManager
import Qmem.Services.All

/-!
# The snapshot of all services

`svcManagerSnapshotAll` writes one object around what the services write. When each of them
writes one value, as those of the repository do, the whole is one document with a member per
enabled service; only a name with a bare control character, which `json_key` passes through,
spoils it.
-/

namespace Qmem

open CLib Json Qmem.Tree

variable {snapshot : Service → List (JsonCall ℚ)} {r : Registry} {now : Int64}

/-- The snapshot functions write one value each. -/
def WriteValues (snapshot : Service → List (JsonCall ℚ)) (r : Registry) : Prop :=
  ∀ svc ∈ r.list, svc.hasSnapshot = true → EmitsValue (snapshot svc)

/-- The member of an enabled service: under its name, what its snapshot function writes. -/
def SaysService (snapshot : Service → List (JsonCall ℚ)) (svc : Service) (m : Key × Tree ℚ) :
    Prop :=
  m.1.str = sanitizeKey svc.name ∧
    Emits (if svc.hasSnapshot then snapshot svc else [.null]) m.2

theorem sanitize_serviceCalls {svc : Service}
    (h : svc.hasSnapshot = true → EmitsValue (snapshot svc)) :
    sanitize (serviceCalls snapshot svc) =
      if svc.enabled then
        .key (sanitizeKey svc.name) :: (if svc.hasSnapshot then snapshot svc else [.null])
      else [] := by
  unfold serviceCalls
  cases svc.enabled with
  | false => rfl
  | true =>
    cases hsnap : svc.hasSnapshot with
    | false => rfl
    | true =>
      obtain ⟨t, ht⟩ := h hsnap
      exact congrArg _ (sanitize_of_plain (plainKeys_of_emits ht))

/-- The loop over the services says one member per enabled service, in order. -/
theorem services_emit {xs : List Service}
    (h : ∀ svc ∈ xs, svc.hasSnapshot = true → EmitsValue (snapshot svc)) :
    ∃ ms, EmitsMembers (sanitize (xs.flatMap (serviceCalls snapshot))) ms ∧
      List.Forall₂ (SaysService snapshot) (xs.filter (·.enabled)) ms := by
  induction xs with
  | nil => exact ⟨[], rfl, .nil⟩
  | cons svc xs ih =>
    obtain ⟨ms, hms, hall⟩ := ih fun x hx => h x (by simp [hx])
    have hsvc := sanitize_serviceCalls (h svc (by simp))
    rw [List.flatMap_cons, sanitize_append]
    cases hen : svc.enabled with
    | false =>
      rw [hen, if_neg (by simp)] at hsvc
      refine ⟨ms, ?_, by rwa [List.filter_cons_of_neg (by simp [hen])]⟩
      rw [hsvc]
      exact hms
    | true =>
      rw [hen, if_pos rfl] at hsvc
      obtain ⟨t, ht⟩ : EmitsValue (if svc.hasSnapshot then snapshot svc else [.null]) := by
        cases hsnap : svc.hasSnapshot with
        | false => exact ⟨.null, rfl⟩
        | true => exact h svc (by simp) hsnap
      let k := Key.of (sanitizeKey svc.name) (plainKey_sanitizeKey svc.name)
      refine ⟨(k, t) :: ms, ?_, ?_⟩
      · rw [hsvc]
        exact (EmitsMembers.member k ht).append hms
      · rw [List.filter_cons_of_pos hen]
        exact .cons ⟨rfl, ht⟩ hall

/-- **The snapshot says one object**, once the names are sanitized. -/
theorem snapshotAll_emits (h : WriteValues snapshot r) (now : Int64) :
    ∃ ms, Emits (sanitize (svcManagerSnapshotAll snapshot r now))
        (.obj [(.lit "timestamp", .int now), (.lit "services", .obj ms)]) ∧
      List.Forall₂ (SaysService snapshot) (r.list.filter (·.enabled)) ms := by
  obtain ⟨ms, hms, hall⟩ := services_emit h
  have hservices : Emits (objectCalls [sanitize (r.list.flatMap (serviceCalls snapshot))])
      (.obj ms) := emits_objectCalls (by simpa using hms)
  have htimestamp : EmitsMembers (sanitize [.kvInt (.lit "timestamp") now])
      [(Key.lit "timestamp", (.int now : Tree ℚ))] := rfl
  refine ⟨ms, ?_, hall⟩
  rw [svcManagerSnapshotAll, sanitize_objectCalls]
  refine emits_objectCalls ?_
  have hsanitize : sanitize (.key (.lit "services") ::
        objectCalls [r.list.flatMap (serviceCalls snapshot)]) =
      .key (Key.lit "services").str ::
        objectCalls [sanitize (r.list.flatMap (serviceCalls snapshot))] := by
    show _ :: sanitize (objectCalls _) = _
    rw [sanitize_objectCalls]
    rfl
  have hboth := htimestamp.append (EmitsMembers.member (Key.lit "services") hservices)
  rw [← hsanitize] at hboth
  simp only [List.map_cons, List.map_nil, List.flatten_cons, List.flatten_nil, List.append_nil]
  exact hboth

/-- The keys of a snapshot are plain when the names of the enabled services are. -/
theorem plainKeys_snapshotAll (h : WriteValues snapshot r) (now : Int64) :
    PlainKeys (svcManagerSnapshotAll snapshot r now) ↔
      ∀ svc ∈ r.list, svc.enabled = true → plainKey svc.name = true := by
  have hservice (svc : Service) (hsvc : svc ∈ r.list) :
      PlainKeys (serviceCalls snapshot svc) ↔ (svc.enabled = true → plainKey svc.name = true) := by
    unfold serviceCalls
    cases svc.enabled with
    | false => simp [PlainKeys]
    | true =>
      have hvalue : PlainKeys (if svc.hasSnapshot then snapshot svc else [.null]) := by
        cases hsnap : svc.hasSnapshot with
        | false => simp [PlainKeys, JsonCall.key?]
        | true =>
          obtain ⟨t, ht⟩ := h svc hsvc hsnap
          exact plainKeys_of_emits ht
      rw [if_pos rfl, plainKeys_cons, and_iff_left hvalue]
      simp [JsonCall.key?]
  have hall : PlainKeys (r.list.flatMap (serviceCalls snapshot)) ↔
      ∀ svc ∈ r.list, svc.enabled = true → plainKey svc.name = true := by
    constructor
    · intro hkeys svc hsvc
      refine (hservice svc hsvc).1 fun c hc => hkeys c ?_
      exact List.mem_flatMap.2 ⟨svc, hsvc, hc⟩
    · intro hnames c hc
      obtain ⟨svc, hsvc, hc⟩ := List.mem_flatMap.1 hc
      exact (hservice svc hsvc).2 (hnames svc hsvc) c hc
  rw [← hall, svcManagerSnapshotAll, plainKeys_objectCalls]
  have htimestamp : PlainKeys [(.kvInt (.lit "timestamp") now : JsonCall ℚ)] := by
    intro c hc k hk
    rw [List.mem_singleton.1 hc] at hk
    rw [← Option.some.inj hk]
    rfl
  have hlit : ∀ k ∈ (.key (.lit "services") : JsonCall ℚ).key?, plainKey k = true := by
    intro k hk
    rw [← Option.some.inj hk]
    rfl
  rw [List.forall_mem_cons, List.forall_mem_singleton, and_iff_right htimestamp, plainKeys_cons,
    and_iff_right hlit, plainKeys_objectCalls, List.forall_mem_singleton]

/-! ## The document -/

/-- The value a service's member should have: the object its snapshot function writes on its own,
or null if it has none. -/
def ServiceValue (num : ℚ → NumLit) (snapshot : Service → List (JsonCall ℚ)) (svc : Service)
    (v : Value) : Prop :=
  if svc.hasSnapshot then
    (∃ ms, v = .obj ms) ∧ parse (unboundedText (numText num) (snapshot svc)) = some v
  else v = .null

/-- The text in `buf` is one JSON object with the time and the services: one member per enabled
service, in registration order, under its name. -/
def SnapshotRight (num : ℚ → NumLit) (snapshot : Service → List (JsonCall ℚ)) (r : Registry)
    (now : Int64) (buf : Bytes) : Prop :=
  ∃ members, parse (runCalls (numText num) (svcManagerSnapshotAll snapshot r now)
      (jsonInit buf buf.length)).text =
    some (.obj [((CStr.lit "timestamp").bytes, .num now.toInt),
      ((CStr.lit "services").bytes, .obj members)]) ∧
    List.Forall₂ (fun svc m => m.1 = svc.name.bytes ∧ ServiceValue num snapshot svc m.2)
      (r.list.filter (·.enabled)) members

/-- The snapshot function returns at the depth it was called with. -/
def KeepsDepth (num : ℚ → NumLit) (snapshot : Service → List (JsonCall ℚ)) (svc : Service) :
    Prop :=
  ∀ j, (runCalls (numText num) (snapshot svc) j).depth = j.depth

/-- The services are the repository's, in any state, or have no snapshot function. -/
def FromRepository (qsort : Qsort) (snapshot : Service → List (JsonCall ℚ)) (r : Registry) :
    Prop :=
  ∀ svc ∈ r.list, svc.hasSnapshot = true →
    ∃ st : ServiceState, svc.name = st.name ∧ snapshot svc = st.snapshot qsort

theorem FromRepository.writeValues {qsort : Qsort} (h : FromRepository qsort snapshot r) :
    WriteValues snapshot r := by
  intro svc hsvc hsnap
  obtain ⟨st, -, hst⟩ := h svc hsvc hsnap
  rw [hst]
  exact (st.snapshot_object qsort).value

theorem serviceValue_of_says {num : ℚ → NumLit} {svc : Service} {m : Key × Tree ℚ}
    (hobj : svc.hasSnapshot = true → EmitsObject (snapshot svc))
    (h : Emits (if svc.hasSnapshot then snapshot svc else [.null]) m.2) :
    ServiceValue num snapshot svc (value num m.2) := by
  unfold ServiceValue
  cases hsnap : svc.hasSnapshot with
  | false =>
    rw [hsnap] at h
    have hparse : some (value num m.2) = some (value num .null) := by
      rw [← parse_doc, ← parse_doc, ← unboundedText_of_emits num h,
        ← unboundedText_of_emits num (emits_calls (.null : Tree ℚ))]
      rfl
    exact Option.some.inj hparse
  | true =>
    rw [hsnap] at h
    obtain ⟨ms, hms⟩ := hobj hsnap
    have hparse : parse (unboundedText (numText num) (snapshot svc)) = some (value num m.2) := by
      have h : Emits (snapshot svc) m.2 := h
      rw [unboundedText_of_emits num h, parse_doc]
    refine ⟨⟨memberValues num ms, ?_⟩, hparse⟩
    rw [unboundedText_of_emits num hms, parse_doc] at hparse
    exact (Option.some.inj hparse).symm

/-- **The snapshot is one well-formed document** with a member per enabled service, exactly when
no enabled service without a snapshot function has a name that `json_key` cannot write. -/
theorem snapshot_right_iff (qsort : Qsort) (num : ℚ → NumLit)
    (snapshot : Service → List (JsonCall ℚ)) (r : Registry) (now : Int64)
    (hrepo : FromRepository qsort snapshot r) (buf : Bytes)
    (hroom : (unboundedText (numText num) (svcManagerSnapshotAll snapshot r now)).length <
      buf.length) :
    (SnapshotRight num snapshot r now buf ∧
        ∀ svc ∈ r.list, svc.hasSnapshot = true → KeepsDepth num snapshot svc) ↔
      ∀ svc ∈ r.list, svc.enabled = true → svc.hasSnapshot = false →
        plainKey svc.name = true := by
  have hwrite := hrepo.writeValues
  obtain ⟨ms, hms, hall⟩ := snapshotAll_emits hwrite now
  have hwf := wellFormed_iff num ⟨_, hms⟩ buf (by omega)
  have hkeys : PlainKeys (svcManagerSnapshotAll snapshot r now) ↔
      ∀ svc ∈ r.list, svc.enabled = true → svc.hasSnapshot = false →
        plainKey svc.name = true := by
    rw [plainKeys_snapshotAll hwrite]
    refine forall₂_congr fun svc hsvc => forall_congr' fun _ => ?_
    refine ⟨fun h _ => h, fun h => ?_⟩
    cases hsnap : svc.hasSnapshot with
    | false => exact h hsnap
    | true =>
      obtain ⟨st, hst, -⟩ := hrepo svc hsvc hsnap
      rw [hst]
      exact st.plainKey_name
  constructor
  · rintro ⟨⟨members, hparse, -⟩, -⟩
    refine hkeys.1 (hwf.1 ?_).2
    rw [WellFormed, hparse]
    rfl
  · intro hnames
    have hplain := hkeys.2 hnames
    rw [sanitize_of_plain hplain] at hms
    refine ⟨⟨memberValues num ms, ?_, ?_⟩, fun svc hsvc hsnap j => ?_⟩
    · rw [unboundedText_of_emits num hms] at hroom
      exact (emits_parse num hms buf hroom).2.2
    · have hnames' := (plainKeys_snapshotAll hwrite now).1 hplain
      have hmembers : memberValues num ms =
          ms.map fun m => (m.1.str.bytes, value num m.2) := by
        clear hms hall hwf
        induction ms with
        | nil => rfl
        | cons m ms ih =>
          rw [memberValues, List.map_cons, ih]
      rw [hmembers, List.forall₂_map_right_iff]
      obtain ⟨hlen, hsays⟩ := List.forall₂_iff_zip.1 hall
      refine List.forall₂_iff_zip.2 ⟨hlen, fun {svc m} hzip => ?_⟩
      obtain ⟨hname, hvalue⟩ := hsays hzip
      obtain ⟨hsvc, hen⟩ := List.mem_filter.1 (List.of_mem_zip hzip).1
      refine ⟨?_, serviceValue_of_says (fun hsnap => ?_) hvalue⟩
      · rw [hname, sanitizeKey_of_plain (hnames' svc hsvc hen)]
      · obtain ⟨st, -, hst⟩ := hrepo svc hsvc hsnap
        rw [hst]
        exact st.snapshot_object qsort
    · obtain ⟨t, ht⟩ := hwrite svc hsvc hsnap
      rw [runCalls_depth, depth_of_emits ht, add_zero]

def vmstatService : Service where
  object := 0
  name := .lit "vmstat"
  ops := some { init := true, collect := true, snapshot := true, destroy := true }
  enabled := true

def vmstatState : ServiceState := .vmstat {
  nrSlabUnreclaimable := 1
  nrSlabReclaimable := 2
  nrVmalloc := 0
  nrKernelStack := 4
  nrPageTablePages := 5
  nrDirty := 6
  nrWriteback := -7 }

/-- The vmstat service in a registry of its own. -/
theorem snapshot_right_iff_vmstat :
    SnapshotRight (fun _ => .ofInt 0) (fun _ => vmstatState.snapshot .merge)
      (.of [vmstatService]) 17 (List.replicate 400 0) :=
  ((snapshot_right_iff .merge (fun _ => .ofInt 0) (fun _ => vmstatState.snapshot .merge)
    (.of [vmstatService]) 17
    (fun svc hsvc _ => ⟨vmstatState, by
      rw [Registry.list_of, List.mem_singleton] at hsvc
      exact ⟨by rw [hsvc]; rfl, rfl⟩⟩)
    (List.replicate 400 0) (by decide +kernel)).2 (by
      intro svc hsvc _ hsnap
      rw [Registry.list_of, List.mem_singleton] at hsvc
      rw [hsvc] at hsnap
      exact absurd hsnap (by decide))).1

/-- A service without a snapshot function whose name is the byte 1. -/
def controlService : Service where
  object := 0
  name := ⟨[1], by decide⟩
  ops := none
  enabled := true

/-- The calls of its snapshot. -/
def controlCalls : List (JsonCall ℚ) :=
  svcManagerSnapshotAll (fun _ => []) (.of [controlService]) 0

/-- The byte stands in the key as it is, and the text is no JSON. -/
theorem controlService_snapshot_wrong :
    FromRepository .merge (fun _ => []) (.of [controlService]) ∧
      (unboundedText (numText fun _ => .ofInt 0) controlCalls).length < 100 ∧
      ¬ SnapshotRight (fun _ => .ofInt 0) (fun _ => []) (.of [controlService]) 0
        (List.replicate 100 0) := by
  refine ⟨fun svc hsvc hsnap => ?_, by decide +kernel, ?_⟩
  · rw [Registry.list_of, List.mem_singleton] at hsvc
    rw [hsvc] at hsnap
    exact absurd hsnap (by decide)
  · rintro ⟨members, hparse, -⟩
    have hwrong : ¬ WellFormed (runCalls (numText fun _ => .ofInt 0) controlCalls
        (jsonInit (List.replicate 100 0) (List.replicate 100 (0 : UInt8)).length)).text := by
      decide +kernel
    refine hwrong ?_
    rw [WellFormed, controlCalls, hparse]
    rfl

end Qmem
