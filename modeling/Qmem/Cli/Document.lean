import Qmem.Cli.Json
import Qmem.Daemon.SnapshotAll

/-!
# Reading a snapshot

A snapshot of the repository's services, in any order, is a text that the commands can read: its
keys are identifiers, a key they read as a string is always written with one, and the name of a
service is no key of another. So the search for a service finds its section, and from there on
everything is a question about the calls that follow.
-/

namespace Qmem

open CLib

/-- The calls of a snapshot of these services. -/
def documentCalls (qsort : Qsort) (now : Int64) (ss : List ServiceState) : List (JsonCall ℚ) :=
  objectCalls [
    [.kvInt (.lit "timestamp") now],
    .key (.lit "services") ::
      objectCalls [ss.flatMap fun st => .key st.name :: st.snapshot qsort]]

/-- The text of the snapshot, as the client receives it. -/
def document (printG : ℚ → CStr) (qsort : Qsort) (now : Int64) (ss : List ServiceState) : Bytes :=
  callText printG false (documentCalls qsort now ss)

/-- It is what the service manager writes for services that all are the repository's. -/
theorem snapshotAll_document {qsort : Qsort} {snapshot : Service → List (JsonCall ℚ)}
    {r : Registry} (hrepo : FromRepository qsort snapshot r)
    (hall : ∀ svc ∈ r.list, svc.enabled = true → svc.hasSnapshot = true) (now : Int64) :
    ∃ ss : List ServiceState, ss.map ServiceState.name = (r.list.filter (·.enabled)).map (·.name) ∧
      svcManagerSnapshotAll snapshot r now = documentCalls qsort now ss := by
  have hlist (xs : List Service) (hxs : ∀ svc ∈ xs, svc ∈ r.list) :
      ∃ ss : List ServiceState, ss.map ServiceState.name = (xs.filter (·.enabled)).map (·.name) ∧
        xs.flatMap (serviceCalls snapshot) =
          ss.flatMap fun st => .key st.name :: st.snapshot qsort := by
    induction xs with
    | nil => exact ⟨[], rfl, rfl⟩
    | cons svc xs ih =>
      obtain ⟨ss, hnames, hcalls⟩ := ih fun x hx => hxs x (List.mem_cons_of_mem _ hx)
      have hsvc := hxs svc List.mem_cons_self
      cases hen : svc.enabled with
      | false =>
        refine ⟨ss, by rw [hnames, List.filter_cons_of_neg (by simp [hen])], ?_⟩
        rw [List.flatMap_cons, hcalls, serviceCalls, hen]
        rfl
      | true =>
        have hsnap := hall svc hsvc hen
        obtain ⟨st, hname, hst⟩ := hrepo svc hsvc hsnap
        refine ⟨st :: ss, ?_, ?_⟩
        · rw [List.filter_cons_of_pos hen, List.map_cons, List.map_cons, hnames, hname]
        · rw [List.flatMap_cons, List.flatMap_cons, hcalls, serviceCalls, hen, hsnap, hname, hst]
          rfl
  obtain ⟨ss, hnames, hcalls⟩ := hlist r.list fun _ h => h
  exact ⟨ss, hnames, by rw [svcManagerSnapshotAll, hcalls]; rfl⟩

/-! ## Keys -/

/-- The names of the services. -/
def serviceNames : List CStr := [
  .lit "meminfo", .lit "slabinfo", .lit "procmem", .lit "heapmon", .lit "memleak", .lit "vmstat",
  .lit "netstat", .lit "procstat", .lit "sockstat", .lit "fdmon", .lit "cpuload", .lit "procevent"]

/-- What a call writes: a value of some kind, or a key whose value the next calls write. -/
inductive ValueKind where
  | nested
  | null
  | string
  | int
  | uint
  | double
  | bool
deriving DecidableEq

/-- The keys that the commands read a string of. -/
def stringKeys : List CStr := [
  .lit "cmd", .lit "name", .lit "cache", .lit "local", .lit "remote", .lit "type"]

/-- The keys that the commands read a number of, even where the object does not have it. -/
def intKeys : List CStr := [
  .lit "pid", .lit "initial_rss_kb", .lit "initial_heap_rss_kb", .lit "rx_bytes", .lit "tx_bytes",
  .lit "rx_bytes_delta", .lit "tx_bytes_delta"]

namespace JsonCall

variable {δ : Type}

def kind : JsonCall δ → ValueKind
  | .objectStart | .objectEnd | .arrayStart | .arrayEnd | .key _ => .nested
  | .null | .string none | .kvString _ none => .null
  | .string (some _) | .kvString _ (some _) => .string
  | .int _ | .kvInt _ _ => .int
  | .uint _ | .kvUint _ _ => .uint
  | .double _ | .kvDouble _ _ => .double
  | .bool _ | .kvBool _ _ => .bool

/-- The key is an identifier, and what goes with it is what the commands read. -/
def readable (c : JsonCall δ) : Bool :=
  c.key?.all fun k => identKey k && (!stringKeys.contains k || c.kind == .string) &&
    (!intKeys.contains k || c.kind == .int)

/-- The key is one of these, and so is what goes with it. -/
def writes (fields : List (CStr × ValueKind)) (c : JsonCall δ) : Bool :=
  c.key?.all fun k => fields.contains (k, c.kind)

end JsonCall

/-- Every key a service writes in its section, and what goes with it. -/
def ServiceState.fields : ServiceState → List (CStr × ValueKind)
  | .meminfo _ => [
    (.lit "usage_percent", .double), (.lit "memory", .nested), (.lit "kernel", .nested),
    (.lit "activity", .nested), (.lit "value", .int), (.lit "delta", .int),
    (.lit "total_kb", .nested), (.lit "available_kb", .nested), (.lit "free_kb", .nested),
    (.lit "buffers_kb", .nested), (.lit "cached_kb", .nested), (.lit "slab_kb", .nested),
    (.lit "sreclaimable_kb", .nested), (.lit "sunreclaim_kb", .nested),
    (.lit "vmalloc_used_kb", .nested), (.lit "page_tables_kb", .nested),
    (.lit "kernel_stack_kb", .nested), (.lit "active_kb", .nested), (.lit "inactive_kb", .nested),
    (.lit "anon_pages_kb", .nested), (.lit "mapped_kb", .nested), (.lit "dirty_kb", .nested)]
  | .slabinfo _ => [
    (.lit "total_caches", .int), (.lit "top_growers", .nested), (.lit "top_shrinkers", .nested),
    (.lit "name", .string), (.lit "size_bytes", .int), (.lit "delta_bytes", .int),
    (.lit "num_objs", .int), (.lit "delta_objs", .int), (.lit "obj_size", .int)]
  | .procmem _ => [
    (.lit "top_growers", .nested), (.lit "top_shrinkers", .nested), (.lit "top_rss", .nested),
    (.lit "pid", .int), (.lit "cmd", .string), (.lit "rss_kb", .int), (.lit "data_kb", .int),
    (.lit "rss_delta_kb", .int), (.lit "data_delta_kb", .int)]
  | .heapmon _ => [
    (.lit "heap_entries", .nested), (.lit "pid", .int), (.lit "cmd", .string),
    (.lit "rss_kb", .int), (.lit "rss_delta_kb", .int), (.lit "initial_rss_kb", .int),
    (.lit "heap_size_kb", .int), (.lit "heap_rss_kb", .int), (.lit "initial_heap_rss_kb", .int),
    (.lit "heap_pd_kb", .int), (.lit "heap_rss_delta_kb", .int), (.lit "heap_pd_delta_kb", .int)]
  | .memleak _ => [
    (.lit "memory_summary", .nested), (.lit "total_kb", .int), (.lit "free_kb", .int),
    (.lit "available_kb", .int), (.lit "cached_kb", .int), (.lit "kernel_leaks", .nested),
    (.lit "user_leaks", .nested), (.lit "process_usage", .nested), (.lit "kernel_usage", .nested),
    (.lit "cache", .string), (.lit "delta_bytes", .int), (.lit "total_bytes", .int),
    (.lit "active_objs", .int), (.lit "delta_objs", .int), (.lit "pid", .int),
    (.lit "cmd", .string), (.lit "rss_kb", .int), (.lit "rss_delta_kb", .int),
    (.lit "heap_rss_kb", .int), (.lit "heap_delta_kb", .int), (.lit "heap_pd_kb", .int),
    (.lit "heap_pd_delta_kb", .int), (.lit "heap_size_kb", .int)]
  | .vmstat _ => [
    (.lit "nr_slab_unreclaimable", .int), (.lit "nr_slab_reclaimable", .int),
    (.lit "nr_vmalloc", .int), (.lit "nr_kernel_stack", .int), (.lit "nr_page_table_pages", .int),
    (.lit "nr_dirty", .int), (.lit "nr_writeback", .int)]
  | .netstat _ => [
    (.lit "interfaces", .nested), (.lit "name", .string), (.lit "rx", .nested),
    (.lit "tx", .nested), (.lit "bytes", .uint), (.lit "packets", .uint), (.lit "errors", .uint),
    (.lit "dropped", .uint), (.lit "bytes_delta", .int), (.lit "rate", .double)]
  | .procstat _ => [
    (.lit "summary", .nested), (.lit "total", .int), (.lit "running", .int),
    (.lit "sleeping", .int), (.lit "disk_sleep", .int), (.lit "zombie", .int),
    (.lit "stopped", .int), (.lit "blocked", .nested), (.lit "pid", .int), (.lit "tid", .int),
    (.lit "cmd", .string), (.lit "state", .string), (.lit "state", .null), (.lit "wchan", .string)]
  | .sockstat _ => [
    (.lit "tcp", .nested), (.lit "total", .int), (.lit "total_delta", .int),
    (.lit "established", .int), (.lit "established_delta", .int), (.lit "time_wait", .int),
    (.lit "time_wait_delta", .int), (.lit "close_wait", .int), (.lit "listen", .int),
    (.lit "udp_total", .int), (.lit "udp_total_delta", .int), (.lit "unix_total", .int),
    (.lit "unix_total_delta", .int), (.lit "sockets", .nested), (.lit "local", .string),
    (.lit "remote", .string), (.lit "state", .int), (.lit "tx_q", .uint), (.lit "rx_q", .uint),
    (.lit "inode", .uint), (.lit "pid", .int), (.lit "cmd", .string)]
  | .fdmon _ => [
    (.lit "summary", .nested), (.lit "total_fds", .int), (.lit "proc_count", .int),
    (.lit "potential_leaks", .int), (.lit "top_consumers", .nested), (.lit "leakers", .nested),
    (.lit "pid", .int), (.lit "cmd", .string), (.lit "fd_count", .int),
    (.lit "initial_fd_count", .int), (.lit "fd_change", .int), (.lit "fd_delta", .int),
    (.lit "files", .int), (.lit "sockets", .int), (.lit "pipes", .int), (.lit "eventfds", .int),
    (.lit "other", .int)]
  | .cpuload _ => [
    (.lit "system", .nested), (.lit "user_percent", .double), (.lit "system_percent", .double),
    (.lit "idle_percent", .double), (.lit "iowait_percent", .double),
    (.lit "top_consumers", .nested), (.lit "pid", .int), (.lit "cmd", .string),
    (.lit "cpu_percent", .double), (.lit "utime", .uint), (.lit "stime", .uint)]
  | .procevent _ => [
    (.lit "counters", .nested), (.lit "forks", .uint), (.lit "execs", .uint),
    (.lit "exits", .uint), (.lit "recent_events", .nested), (.lit "pid", .int),
    (.lit "cmd", .string), (.lit "type", .string), (.lit "timestamp", .uint)]

section

variable {δ : Type} {cs ds : List (JsonCall δ)} {k : CStr}

theorem identKeys_of_readable (h : cs.all JsonCall.readable = true) : IdentKeys cs := by
  intro c hc k hk
  have hread := List.all_eq_true.1 h c hc
  rw [JsonCall.readable, hk, Option.all_some, Bool.and_eq_true, Bool.and_eq_true] at hread
  exact hread.1.1

theorem stringKey_of_readable (h : cs.all JsonCall.readable = true)
    (hk : stringKeys.contains k = true) : StringKey k cs := by
  intro c hc hkey
  have hread := List.all_eq_true.1 h c hc
  rw [JsonCall.readable, hkey, Option.all_some, Bool.and_eq_true, Bool.and_eq_true, hk] at hread
  have hkind : c.kind = .string := beq_iff_eq.1 hread.1.2
  cases c with
  | kvString k' v =>
    cases v with
    | none => cases hkind
    | some v => exact ⟨v, by rw [Option.some.inj hkey]⟩
  | string v => cases hkey
  | _ => cases hkind

theorem intKey_of_readable (h : cs.all JsonCall.readable = true)
    (hk : intKeys.contains k = true) : IntKey k cs := by
  intro c hc hkey
  have hread := List.all_eq_true.1 h c hc
  rw [JsonCall.readable, hkey, Option.all_some, Bool.and_eq_true, hk] at hread
  have hkind : c.kind = .int := beq_iff_eq.1 hread.2
  cases c with
  | kvInt k' v => exact ⟨v, by rw [Option.some.inj hkey]⟩
  | int v => cases hkey
  | string v | kvString k v => cases v <;> cases hkind
  | _ => cases hkind

theorem strstr_readable {printG : δ → CStr} (hprint : ∀ d, 0x22 ∉ (printG d).bytes)
    (hk : identKey k = true) {b : Bool} (h : cs.all JsonCall.readable = true)
    (hfirst : firstKey k cs = some ds) :
    strstr (callText printG b cs) (keyPattern k) = some (callText printG false ds) := by
  rw [strstr_keyPattern hprint hk b (identKeys_of_readable h), hfirst]
  rfl

theorem readable_firstKey (h : cs.all JsonCall.readable = true) (hfirst : firstKey k cs = some ds) :
    ds.all JsonCall.readable = true := by
  induction cs with
  | nil => cases hfirst
  | cons c cs ih =>
    rw [firstKey] at hfirst
    split at hfirst
    · rwa [← Option.some.inj hfirst]
    · rw [List.all_cons, Bool.and_eq_true] at h
      exact ih h.2 hfirst

/-! ### Checking all calls -/

/-- A check of the key, which a call without one passes. -/
def ChecksKey (p : JsonCall δ → Bool) : Prop := ∀ c : JsonCall δ, c.key? = none → p c = true

theorem checksKey_readable : ChecksKey (JsonCall.readable (δ := δ)) := fun c hc => by
  rw [JsonCall.readable, hc]
  rfl

theorem checksKey_writes (fields : List (CStr × ValueKind)) :
    ChecksKey (JsonCall.writes (δ := δ) fields) := fun c hc => by
  rw [JsonCall.writes, hc]
  rfl

variable {p : JsonCall δ → Bool}

theorem all_objectCalls (hp : ChecksKey p) {parts : List (List (JsonCall δ))}
    (h : parts.Forall fun part => part.all p = true) : (objectCalls parts).all p = true := by
  rw [List.forall_iff_forall_mem] at h
  have hparts : parts.flatten.all p = true := by
    rw [List.all_flatten, List.all_eq_true]
    exact h
  rw [objectCalls, List.all_cons, List.all_append, hparts, List.all_cons, hp _ rfl, hp _ rfl]
  rfl

theorem all_arrayCalls (hp : ChecksKey p) {α : Type} {xs : List α} {f : α → List (JsonCall δ)}
    (h : ∀ x, (f x).all p = true) : (arrayCalls xs f).all p = true := by
  have hxs : (xs.flatMap f).all p = true := by
    rw [List.all_flatMap, List.all_eq_true]
    exact fun x _ => h x
  rw [arrayCalls, List.all_cons, List.all_append, hxs, List.all_cons, hp _ rfl, hp _ rfl]
  rfl

theorem all_member {k : CStr} (hk : p (.key k) = true) (h : cs.all p = true) :
    (JsonCall.key k :: cs).all p = true := by
  rw [List.all_cons, hk, h]
  rfl

theorem all_arrayMember (hp : ChecksKey p) {α : Type} {k : CStr} {xs : List α}
    {f : α → List (JsonCall δ)} (hk : p (.key k) = true) (h : ∀ x, (f x).all p = true) :
    (JsonCall.key k :: arrayCalls xs f).all p = true := all_member hk (all_arrayCalls hp h)

end

/-- **A service writes its fields and no others.** -/
theorem ServiceState.snapshot_fields (qsort : Qsort) (st : ServiceState) :
    (st.snapshot qsort).all (·.writes st.fields) = true := by
  have hp := checksKey_writes (δ := ℚ) st.fields
  cases st with
  | meminfo priv =>
    have delta {name : CStr}
        (hname : (JsonCall.key name : JsonCall ℚ).writes (meminfo priv).fields = true)
        (current previous : Int64) :
        (Meminfo.writeDelta name current previous priv.hasPrevious).all
          (·.writes (meminfo priv).fields) = true := by
      refine all_member hname ?_
      cases priv.hasPrevious <;> rfl
    refine all_objectCalls hp ⟨rfl, all_member rfl (all_objectCalls hp ?_),
      all_member rfl (all_objectCalls hp ?_), all_member rfl (all_objectCalls hp ?_)⟩
    · exact ⟨delta rfl _ _, delta rfl _ _, delta rfl _ _, delta rfl _ _, delta rfl _ _⟩
    · exact ⟨delta rfl _ _, delta rfl _ _, delta rfl _ _, delta rfl _ _, delta rfl _ _,
        delta rfl _ _⟩
    · exact ⟨delta rfl _ _, delta rfl _ _, delta rfl _ _, delta rfl _ _, delta rfl _ _⟩
  | slabinfo priv =>
    exact all_objectCalls hp ⟨rfl, all_arrayMember hp rfl fun _ => rfl,
      all_arrayMember hp rfl fun _ => rfl⟩
  | procmem priv =>
    exact all_objectCalls hp ⟨all_arrayMember hp rfl fun _ => rfl,
      all_arrayMember hp rfl fun _ => rfl, all_arrayMember hp rfl fun _ => rfl⟩
  | heapmon priv => exact all_objectCalls hp (all_arrayMember hp rfl fun _ => rfl)
  | memleak priv =>
    exact all_objectCalls hp ⟨rfl, all_arrayMember hp rfl fun _ => rfl,
      all_arrayMember hp rfl fun _ => rfl, all_arrayMember hp rfl fun _ => rfl,
      all_arrayMember hp rfl fun _ => rfl⟩
  | vmstat data => rfl
  | netstat priv => exact all_objectCalls hp (all_arrayMember hp rfl fun _ => rfl)
  | procstat priv =>
    refine all_objectCalls hp ⟨rfl, all_arrayMember hp rfl fun e => ?_⟩
    rw [Procstat.blockedCalls]
    cases e.stateDesc <;> rfl
  | sockstat priv =>
    refine all_objectCalls hp ⟨rfl, rfl, all_arrayMember hp rfl fun s => ?_⟩
    refine all_objectCalls hp ⟨rfl, ?_⟩
    split <;> rfl
  | fdmon priv =>
    exact all_objectCalls hp ⟨rfl, all_arrayMember hp rfl fun _ => rfl,
      all_arrayMember hp rfl fun _ => rfl⟩
  | cpuload priv => exact all_objectCalls hp ⟨rfl, all_arrayMember hp rfl fun _ => rfl⟩
  | procevent priv => exact all_objectCalls hp ⟨rfl, all_arrayMember hp rfl fun _ => rfl⟩

/-- What is asked of a field: the commands can read it, and no service is called so. -/
def fieldOk (field : CStr × ValueKind) : Bool :=
  identKey field.1 && (!stringKeys.contains field.1 || field.2 == .string) &&
    (!intKeys.contains field.1 || field.2 == .int) && !serviceNames.contains field.1

theorem ServiceState.fields_ok (st : ServiceState) : st.fields.all fieldOk = true := by
  cases st <;> (simp only [ServiceState.fields]; decide +kernel)

theorem ServiceState.snapshot_ok (qsort : Qsort) (st : ServiceState) {c : JsonCall ℚ}
    (hc : c ∈ st.snapshot qsort) {k : CStr} (hk : c.key? = some k) :
    fieldOk (k, c.kind) = true := by
  have hwrites := List.all_eq_true.1 (st.snapshot_fields qsort) c hc
  rw [JsonCall.writes, hk, Option.all_some, List.contains_iff_mem] at hwrites
  exact List.all_eq_true.1 st.fields_ok _ hwrites

theorem ServiceState.snapshot_readable (qsort : Qsort) (st : ServiceState) :
    (st.snapshot qsort).all JsonCall.readable = true := by
  rw [List.all_eq_true]
  intro c hc
  cases hk : c.key? with
  | none => exact checksKey_readable c hk
  | some k =>
    have hok := st.snapshot_ok qsort hc hk
    rw [fieldOk, Bool.and_eq_true] at hok
    rw [JsonCall.readable, hk]
    exact hok.1

/-! ## Sections -/

/-- The first of the services with a name, and those after it. -/
def findSection (name : CStr) : List ServiceState → Option (ServiceState × List ServiceState)
  | [] => none
  | st :: ss => if st.name = name then some (st, ss) else findSection name ss

/-- What follows the section of a service, for the services after it. -/
def afterCalls (qsort : Qsort) (post : List ServiceState) : List (JsonCall ℚ) :=
  post.flatMap (fun st => .key st.name :: st.snapshot qsort) ++
    [JsonCall.objectEnd, .objectEnd]

theorem findSection_name {name : CStr} {ss post : List ServiceState} {st : ServiceState}
    (h : findSection name ss = some (st, post)) : st.name = name := by
  induction ss with
  | nil => cases h
  | cons st' ss ih =>
    rw [findSection] at h
    split at h
    · case isTrue hname =>
      cases h
      exact hname
    · exact ih h

/-- What is said of the section that is found. -/
theorem forall_found_iff {Priv : Type} {mk : Priv → ServiceState} (hmk : mk.Injective)
    {name : CStr} {ss post : List ServiceState} {priv : Priv}
    (hfind : findSection name ss = some (mk priv, post)) {P : Priv → List ServiceState → Prop} :
    (∀ priv post, findSection name ss = some (mk priv, post) → P priv post) ↔ P priv post := by
  refine ⟨fun h => h priv post hfind, fun h priv' post' hfind' => ?_⟩
  rw [hfind, Option.some_inj, Prod.mk.injEq] at hfind'
  obtain ⟨hst, rfl⟩ := hfind'
  rwa [← hmk hst]

theorem ServiceState.eq_procmem {st : ServiceState} (h : st.name = .lit "procmem") :
    ∃ priv, st = .procmem priv := by
  cases st with
  | procmem priv => exact ⟨priv, rfl⟩
  | _ => exact absurd h (by simp only [ServiceState.name]; decide)

theorem ServiceState.eq_slabinfo {st : ServiceState} (h : st.name = .lit "slabinfo") :
    ∃ priv, st = .slabinfo priv := by
  cases st with
  | slabinfo priv => exact ⟨priv, rfl⟩
  | _ => exact absurd h (by simp only [ServiceState.name]; decide)

section

variable {δ : Type} {cs ds : List (JsonCall δ)} {k : CStr}

/-- No call has the key. -/
def NoKey (k : CStr) (cs : List (JsonCall δ)) : Prop := ∀ c ∈ cs, c.key? ≠ some k

theorem firstKey_append (h : NoKey k cs) : firstKey k (cs ++ ds) = firstKey k ds := by
  induction cs with
  | nil => rfl
  | cons c cs ih =>
    rw [List.cons_append, firstKey, if_neg (h c List.mem_cons_self)]
    exact ih fun c hc => h c (List.mem_cons_of_mem _ hc)

theorem firstKey_none (h : NoKey k cs) : firstKey k cs = none := by
  rw [← List.append_nil cs, firstKey_append h]
  rfl

theorem firstInt_append (h : NoKey k cs) : firstInt k (cs ++ ds) = firstInt k ds := by
  rw [firstInt, firstKey_append h]
  rfl

theorem firstInt_none (h : NoKey k cs) : firstInt k cs = 0 := by
  rw [firstInt, firstKey_none h]

theorem NoKey.append (hcs : NoKey k cs) (hds : NoKey k ds) : NoKey k (cs ++ ds) := by
  intro c hc
  rcases List.mem_append.1 hc with hc | hc
  · exact hcs c hc
  · exact hds c hc

theorem NoKey.flatMap {α : Type} {f : α → List (JsonCall δ)} {xs : List α}
    (h : ∀ x ∈ xs, NoKey k (f x)) : NoKey k (xs.flatMap f) := by
  intro c hc
  obtain ⟨x, hx, hc⟩ := List.mem_flatMap.1 hc
  exact h x hx c hc

end

/-- A key that is none of a service's fields. -/
theorem ServiceState.noKey (qsort : Qsort) (st : ServiceState) {k : CStr}
    (hk : st.fields.all (·.1 != k) = true) : NoKey k (st.snapshot qsort) := by
  intro c hc hkey
  have hwrites := List.all_eq_true.1 (st.snapshot_fields qsort) c hc
  rw [JsonCall.writes, hkey, Option.all_some, List.contains_iff_mem] at hwrites
  exact bne_iff_ne.1 (List.all_eq_true.1 hk _ hwrites) rfl

theorem ServiceState.noKey_name (qsort : Qsort) (st : ServiceState) {name : CStr}
    (hname : serviceNames.contains name = true) : NoKey name (st.snapshot qsort) := by
  intro c hc hkey
  have hok := st.snapshot_ok qsort hc hkey
  rw [fieldOk, hname, Bool.and_eq_true] at hok
  cases hok.2

theorem ServiceState.name_mem (st : ServiceState) : serviceNames.contains st.name = true := by
  cases st <;> rfl

variable {qsort : Qsort} {now : Int64} {ss post : List ServiceState} {name : CStr}

theorem readable_members (ss : List ServiceState) :
    (ss.flatMap fun st => .key st.name :: st.snapshot qsort).all JsonCall.readable = true := by
  rw [List.all_flatMap, List.all_eq_true]
  intro st _
  rw [List.all_cons, st.snapshot_readable qsort, Bool.and_true]
  cases st <;> rfl

theorem readable_afterCalls (post : List ServiceState) :
    (afterCalls qsort post).all JsonCall.readable = true := by
  rw [afterCalls, List.all_append, readable_members]
  rfl

/-- A key that is none of these services' fields. -/
theorem noKey_afterCalls {k : CStr} (hname : serviceNames.contains k = false)
    (hpost : ∀ st ∈ post, st.fields.all (·.1 != k) = true) : NoKey k (afterCalls qsort post) := by
  refine NoKey.append (.flatMap fun st hst c hc hkey => ?_) (by simp [NoKey, JsonCall.key?])
  rcases List.mem_cons.1 hc with rfl | hc
  · have hst := st.name_mem
    rw [Option.some.inj hkey, hname] at hst
    cases hst
  · exact st.noKey qsort (hpost st ‹_›) c hc hkey

theorem documentCalls_eq (ss : List ServiceState) :
    documentCalls qsort now ss =
      [JsonCall.objectStart, .kvInt (.lit "timestamp") now, .key (.lit "services"),
        .objectStart] ++ afterCalls qsort ss := by
  simp [documentCalls, objectCalls, afterCalls]

theorem readable_documentCalls (ss : List ServiceState) :
    (documentCalls qsort now ss).all JsonCall.readable = true := by
  rw [documentCalls_eq, List.all_append, readable_afterCalls]
  rfl

/-- **The search for a service's name finds its section.** -/
theorem firstKey_document (hname : serviceNames.contains name = true) :
    firstKey name (documentCalls qsort now ss) = (findSection name ss).map fun (st, post) =>
      .key name :: (st.snapshot qsort ++ afterCalls qsort post) := by
  have hhead : NoKey name ([.objectStart, .kvInt (.lit "timestamp") now, .key (.lit "services"),
      .objectStart] : List (JsonCall ℚ)) := by
    have hnot (k : CStr) (hk : serviceNames.contains k = false) : k ≠ name := by
      rintro rfl
      rw [hname] at hk
      cases hk
    have htime := hnot (.lit "timestamp") rfl
    have hservices := hnot (.lit "services") rfl
    simp [NoKey, JsonCall.key?, htime, hservices]
  rw [documentCalls_eq, firstKey_append hhead]
  induction ss with
  | nil => rfl
  | cons st ss ih =>
    have hcons : afterCalls qsort (st :: ss) =
        .key st.name :: (st.snapshot qsort ++ afterCalls qsort ss) := by
      simp [afterCalls]
    rw [hcons, firstKey, findSection, JsonCall.key?]
    by_cases h : st.name = name
    · rw [if_pos (congrArg some h), if_pos h, h]
      rfl
    · rw [if_neg (fun heq => h (Option.some.inj heq)), if_neg h,
        firstKey_append (st.noKey_name qsort hname), ih]

/-- A section and all that follows it. -/
def sectionCalls (qsort : Qsort) (st : ServiceState) (post : List ServiceState) :
    List (JsonCall ℚ) :=
  .key st.name :: (st.snapshot qsort ++ afterCalls qsort post)

theorem readable_sectionCalls (st : ServiceState) (post : List ServiceState) :
    (sectionCalls qsort st post).all JsonCall.readable = true := by
  rw [sectionCalls, List.all_cons, List.all_append, st.snapshot_readable, readable_afterCalls]
  cases st <;> rfl

/-- The text from the section on. -/
theorem strstr_section {printG : ℚ → CStr} (hprint : ∀ d, 0x22 ∉ (printG d).bytes)
    (hname : serviceNames.contains name = true) (hk : identKey name = true) :
    strstr (document printG qsort now ss) (keyPattern name) =
      (findSection name ss).map fun (st, post) =>
        callText printG false (sectionCalls qsort st post) := by
  rw [document, strstr_keyPattern hprint hk false
    (identKeys_of_readable (readable_documentCalls ss)), firstKey_document hname, Option.map_map]
  cases hfind : findSection name ss with
  | none => rfl
  | some found =>
    obtain ⟨st, post⟩ := found
    obtain rfl := findSection_name hfind
    rfl

section

variable {printG : ℚ → CStr} (hprint : ∀ d, 0x22 ∉ (printG d).bytes) {st : ServiceState}

include hprint

theorem strstr_section_some (hfind : findSection name ss = some (st, post)) :
    strstr (document printG qsort now ss) (keyPattern name) =
      some (callText printG false (sectionCalls qsort st post)) := by
  obtain rfl := findSection_name hfind
  have hk : identKey st.name = true := by cases st <;> rfl
  rw [strstr_section hprint st.name_mem hk, hfind]
  rfl

theorem strstr_section_none (qsort : Qsort) (now : Int64)
    (hname : serviceNames.contains name = true)
    (hk : identKey name = true) (hfind : findSection name ss = none) :
    strstr (document printG qsort now ss) (keyPattern name) = none := by
  rw [strstr_section hprint hname hk, hfind]
  rfl

/-- A search in a section. -/
theorem strstr_member {k : CStr} (hk : identKey k = true) {ds : List (JsonCall ℚ)}
    (h : firstKey k (sectionCalls qsort st post) = some ds) :
    strstr (callText printG false (sectionCalls qsort st post)) (keyPattern k) =
      some (callText printG false ds) :=
  strstr_readable hprint hk (readable_sectionCalls st post) h

end

theorem readable_member {δ : Type} {k : CStr} {cs ds : List (JsonCall δ)}
    (hk : (JsonCall.key k : JsonCall δ).readable = true) (hcs : cs.all JsonCall.readable = true)
    (hds : ds.all JsonCall.readable = true) :
    (JsonCall.key k :: (cs ++ ds)).all JsonCall.readable = true := by
  rw [List.all_cons, List.all_append, hk, hcs, hds]
  rfl

/-! ## Arrays -/

section

variable {δ : Type} {printG : δ → CStr} {k : CStr} {cs : List (JsonCall δ)}
  {α β : Type} {f : α → List (JsonCall δ)}

/-- Each element is one object whose first key is `k`, and the only one that starts so. -/
def StartsWith (k : CStr) (f : α → List (JsonCall δ)) : Prop :=
  ∀ x rest, objectsWith k (f x ++ rest) = (f x ++ rest) :: objectsWith k rest

/-- What a command reads where an element stands, given what follows the element. -/
def ReadsWith (printG : δ → CStr) (f : α → List (JsonCall δ)) (read : Bytes → β)
    (row : α → List (JsonCall δ) → β) : Prop :=
  ∀ x rest, rest.all JsonCall.readable = true →
    read (callText printG false (f x ++ rest)) = row x rest

/-- What a command reads of an element is the row of the element. -/
def Reads (printG : δ → CStr) (f : α → List (JsonCall δ)) (read : Bytes → β) (row : α → β) :
    Prop :=
  ∀ x rest, rest.all JsonCall.readable = true → read (callText printG false (f x ++ rest)) = row x

/-- The rows of the elements when `cs` follows them. -/
def rowsWith (f : α → List (JsonCall δ)) (row : α → List (JsonCall δ) → β)
    (cs : List (JsonCall δ)) : List α → List β
  | [] => []
  | x :: xs => row x (xs.flatMap f ++ cs) :: rowsWith f row cs xs

theorem rowsWith_eq_map (row : α → β) (cs : List (JsonCall δ)) (xs : List α) :
    rowsWith f (fun x _ => row x) cs xs = xs.map row := by
  induction xs with
  | nil => rfl
  | cons x xs ih => rw [rowsWith, ih, List.map_cons]

theorem rowsWith_append_eq_map_iff {row : α → List (JsonCall δ) → β} {of : α → β}
    {xs : List α} {ys : List β} :
    rowsWith f row cs xs ++ ys = xs.map of ↔
      (∀ front x back, xs = front ++ x :: back → row x (back.flatMap f ++ cs) = of x) ∧
        ys = [] := by
  induction xs with
  | nil => simp [rowsWith]
  | cons x xs ih =>
    rw [rowsWith, List.cons_append, List.map_cons, List.cons_eq_cons, ih, ← and_assoc]
    refine and_congr_left fun _ => ⟨fun ⟨hx, hxs⟩ front y back h => ?_, fun h => ⟨?_, ?_⟩⟩
    · cases front with
      | nil =>
        obtain ⟨rfl, rfl⟩ := List.cons.inj h
        exact hx
      | cons z front =>
        obtain ⟨-, h⟩ := List.cons.inj h
        exact hxs front y back h
    · exact h [] x xs rfl
    · rintro front y back rfl
      exact h (x :: front) y back rfl

theorem rowsWith_length {row : α → List (JsonCall δ) → β} (xs : List α) :
    (rowsWith f row cs xs).length = xs.length := by
  induction xs with
  | nil => rfl
  | cons x xs ih => rw [rowsWith, List.length_cons, List.length_cons, ih]

/-- A property of each row that is a property of its element. -/
theorem forall₂_rowsWith_iff {row : α → List (JsonCall δ) → β} {P : β → α → Prop} {Q : α → Prop}
    (hrow : ∀ x (xs : List α), P (row x (xs.flatMap f ++ cs)) x ↔ Q x) (xs : List α) :
    List.Forall₂ P (rowsWith f row cs xs) xs ↔ ∀ x ∈ xs, Q x := by
  induction xs with
  | nil => simp [rowsWith]
  | cons x xs ih => rw [rowsWith, List.forall₂_cons, hrow, ih, List.forall_mem_cons]

theorem map_objectsWith {read : Bytes → β} {row : α → List (JsonCall δ) → β}
    (hstart : StartsWith k f) (hread : ReadsWith printG f read row)
    (hf : ∀ x, (f x).all JsonCall.readable = true) (hcs : cs.all JsonCall.readable = true)
    (xs : List α) :
    (objectsWith k (xs.flatMap f ++ cs)).map (fun ds => read (callText printG false ds)) =
      rowsWith f row cs xs ++ (objectsWith k cs).map fun ds => read (callText printG false ds) := by
  induction xs with
  | nil => rfl
  | cons x xs ih =>
    have hrest : (xs.flatMap f ++ cs).all JsonCall.readable = true := by
      rw [List.all_append, List.all_flatMap, hcs, Bool.and_true, List.all_eq_true]
      exact fun x _ => hf x
    rw [List.flatMap_cons, List.append_assoc, hstart, List.map_cons, ih, hread x _ hrest]
    rfl

theorem strchr_bracket {key : CStr} (hkey : identKey key = true) (cs : List (JsonCall δ)) :
    strchr (callText printG false (.key key :: .arrayStart :: cs)) 0x5b =
      some (callText printG false (.arrayStart :: cs)) := by
  have hbracket : (0x5b : UInt8) ∉ keyPattern key := by
    rw [keyPattern_eq, List.mem_append, not_or]
    exact ⟨not_mem_quoted hkey rfl (by decide), by decide⟩
  have htext : callText printG false (.key key :: .arrayStart :: cs) =
      keyPattern key ++ 0x5b :: callText printG false cs := callText_field false hkey rfl
  rw [htext, strchr_append hbracket]
  rfl

/-- **The rows of an array are those of its elements, and then those of every object that starts
with the same key anywhere behind it.** -/
theorem arrayRows_with (hprint : ∀ d, 0x22 ∉ (printG d).bytes) (hk : identKey k = true)
    {key : CStr} (hkey : identKey key = true) {read : Bytes → β}
    {row : α → List (JsonCall δ) → β} (hstart : StartsWith k f)
    (hread : ReadsWith printG f read row) (hf : ∀ x, (f x).all JsonCall.readable = true)
    (hcs : cs.all JsonCall.readable = true) (xs : List α) :
    arrayRows (callText printG false (.key key :: (arrayCalls xs f ++ cs))) k read =
      rowsWith f row (.arrayEnd :: cs) xs ++
        (objectsWith k cs).map fun ds => read (callText printG false ds) := by
  have hend : (JsonCall.arrayEnd :: cs).all JsonCall.readable = true := by
    rw [List.all_cons, hcs]
    rfl
  have hall : (.arrayStart :: (xs.flatMap f ++ .arrayEnd :: cs) : List (JsonCall δ)).all
      JsonCall.readable = true := by
    rw [List.all_cons, List.all_append, hend, List.all_flatMap, Bool.and_true, Bool.and_eq_true,
      List.all_eq_true]
    exact ⟨rfl, fun x _ => hf x⟩
  have harray : arrayCalls xs f ++ cs = .arrayStart :: (xs.flatMap f ++ .arrayEnd :: cs) := by
    simp [arrayCalls]
  have hopen : objectsWith k (.arrayStart :: (xs.flatMap f ++ .arrayEnd :: cs)) =
      objectsWith k (xs.flatMap f ++ .arrayEnd :: cs) := rfl
  rw [arrayRows, harray, strchr_bracket hkey]
  simp only
  rw [scan_objectPattern hprint hk false (identKeys_of_readable hall), hopen, List.map_map]
  exact map_objectsWith hstart hread hf hend xs

/-- The same where an element's row depends on the element alone. -/
theorem arrayRows_array (hprint : ∀ d, 0x22 ∉ (printG d).bytes) (hk : identKey k = true)
    {key : CStr} (hkey : identKey key = true) {read : Bytes → β} {row : α → β}
    (hstart : StartsWith k f) (hread : Reads printG f read row)
    (hf : ∀ x, (f x).all JsonCall.readable = true) (hcs : cs.all JsonCall.readable = true)
    (xs : List α) :
    arrayRows (callText printG false (.key key :: (arrayCalls xs f ++ cs))) k read =
      xs.map row ++ (objectsWith k cs).map fun ds => read (callText printG false ds) := by
  have hwith : ReadsWith printG f read fun x _ => row x := hread
  rw [arrayRows_with hprint hk hkey hstart hwith hf hcs, rowsWith_eq_map]

/-- The array and what follows it hold no object that starts with the key. -/
theorem objectsWith_array_eq_nil (hstart : StartsWith k f) (xs : List α) :
    objectsWith k (arrayCalls xs f ++ cs) = [] ↔ xs = [] ∧ objectsWith k cs = [] := by
  have harray : objectsWith k (arrayCalls xs f ++ cs) =
      objectsWith k (xs.flatMap f ++ .arrayEnd :: cs) := by
    rw [arrayCalls, List.cons_append, List.append_assoc]
    rfl
  rw [harray]
  cases xs with
  | nil => simp [objectsWith, opensWith]
  | cons x xs =>
    rw [List.flatMap_cons, List.append_assoc, hstart]
    simp

/-- The test for an empty array sees an element, or else what comes later. -/
theorem objectBehind_iff (hprint : ∀ d, 0x22 ∉ (printG d).bytes) (hk : identKey k = true)
    {key : CStr} (hkey : identKey key = true) (hstart : StartsWith k f)
    (hf : ∀ x, (f x).all JsonCall.readable = true) (hcs : cs.all JsonCall.readable = true)
    (xs : List α) :
    objectBehind (callText printG false (.key key :: (arrayCalls xs f ++ cs))) k = true ↔
      xs ≠ [] ∨ objectsWith k cs ≠ [] := by
  have hall : (arrayCalls xs f ++ cs).all JsonCall.readable = true := by
    rw [List.all_append, all_arrayCalls checksKey_readable hf, hcs]
    rfl
  have hne : objectPattern k ≠ [] := List.cons_ne_nil _ _
  have hnone : strstr (callText printG false (arrayCalls xs f ++ cs)) (objectPattern k) = none ↔
      xs = [] ∧ objectsWith k cs = [] := by
    rw [← scan_eq_nil_iff hne, scan_objectPattern hprint hk false (identKeys_of_readable hall),
      List.map_eq_nil_iff, objectsWith_array_eq_nil hstart]
  have hbracket : strchr (callText printG false (.key key :: (arrayCalls xs f ++ cs))) 0x5b =
      some (callText printG false (arrayCalls xs f ++ cs)) := strchr_bracket hkey _
  rw [objectBehind, hbracket]
  simp only
  rw [Option.isSome_iff_ne_none, ne_eq, hnone, not_and_or]

/-- An array of objects that start with another key adds none. -/
theorem objectsWith_array_skip (hskip : ∀ x rest, objectsWith k (f x ++ rest) = objectsWith k rest)
    (xs : List α) : objectsWith k (arrayCalls xs f ++ cs) = objectsWith k cs := by
  have hxs : objectsWith k (xs.flatMap f ++ .arrayEnd :: cs) = objectsWith k cs := by
    induction xs with
    | nil => rfl
    | cons x xs ih => rw [List.flatMap_cons, List.append_assoc, hskip, ih]
  rw [arrayCalls, List.cons_append, List.append_assoc]
  exact hxs

theorem noKey_of_all (h : cs.all (fun c => c.key? != some k) = true) : NoKey k cs :=
  fun c hc => bne_iff_ne.1 (List.all_eq_true.1 h c hc)

theorem noKey_arrayCalls (h : ∀ x, NoKey k (f x)) (xs : List α) : NoKey k (arrayCalls xs f) := by
  intro c hc
  rw [arrayCalls, List.mem_cons, List.mem_append, List.mem_flatMap, List.mem_singleton] at hc
  rcases hc with rfl | ⟨x, -, hc⟩ | rfl
  · exact (Option.some_ne_none k).symm
  · exact h x c hc
  · exact (Option.some_ne_none k).symm

end

/-! ## Other sections -/

/-- The service writes an object that starts with the key. -/
def ServiceState.Lists (qsort : Qsort) (k : CStr) (st : ServiceState) : Prop :=
  objectsWith k (st.snapshot qsort) ≠ []

theorem objectsWith_append_eq_nil {δ : Type} {k : CStr} {cs ds : List (JsonCall δ)}
    (hlast : cs.getLast? ≠ some .objectStart) :
    objectsWith k (cs ++ ds) = [] ↔ objectsWith k cs = [] ∧ objectsWith k ds = [] := by
  induction cs with
  | nil => simp [objectsWith]
  | cons c cs ih =>
    have hsame : opensWith k (c :: (cs ++ ds)) = opensWith k (c :: cs) := by
      cases cs with
      | nil => cases c <;> first | rfl | exact absurd rfl hlast
      | cons d cs => cases c <;> rfl
    have hcs : cs.getLast? ≠ some .objectStart := by
      cases cs with
      | nil => exact (Option.some_ne_none _).symm
      | cons d cs => rwa [List.getLast?_cons_cons] at hlast
    rw [List.cons_append, objectsWith, objectsWith, hsame]
    split
    · simp
    · exact ih hcs

theorem ServiceState.snapshot_getLast (qsort : Qsort) (st : ServiceState) :
    (st.snapshot qsort).getLast? = some .objectEnd := by
  have hobject (parts : List (List (JsonCall ℚ))) :
      (objectCalls parts).getLast? = some .objectEnd := by
    rw [objectCalls, ← List.cons_append, List.getLast?_concat]
  cases st <;> exact hobject _

theorem objectsWith_afterCalls (k : CStr) (post : List ServiceState) :
    objectsWith k (afterCalls qsort post) = [] ↔ ∀ st ∈ post, ¬ st.Lists qsort k := by
  induction post with
  | nil => simp [afterCalls, objectsWith, opensWith]
  | cons st post ih =>
    have hcons : objectsWith k (afterCalls qsort (st :: post)) =
        objectsWith k (st.snapshot qsort ++ afterCalls qsort post) := by
      rw [afterCalls, List.flatMap_cons, List.append_assoc]
      rfl
    have hlast : (st.snapshot qsort).getLast? ≠ some .objectStart := by
      rw [st.snapshot_getLast]
      simp
    rw [hcons, objectsWith_append_eq_nil hlast, ih, List.forall_mem_cons, ServiceState.Lists,
      not_not]

end Qmem
