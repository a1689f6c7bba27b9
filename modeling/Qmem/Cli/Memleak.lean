import Qmem.Cli.Document

/-!
# `qmemctl memleak` (`cli/commands.c`)

The section has no baselines: the command looks for them in the row of a process, and goes on to
the end of the document. Whether there are user leaks it decides by a search too, for an object
that starts with a pid, anywhere behind the list.
-/

namespace Qmem

open CLib Heapmon Memleak

/-! ## The command -/

structure SummaryReport where
  total : Int64
  avail : Int64
  freeKb : Int64
  cached : Int64

def SummaryReport.used (r : SummaryReport) : Int64 := r.total - r.freeKb - r.cached

def SummaryReport.read (memSum : Bytes) : SummaryReport where
  total := jsonGetInt memSum (.lit "total_kb")
  avail := jsonGetInt memSum (.lit "available_kb")
  freeKb := jsonGetInt memSum (.lit "free_kb")
  cached := jsonGetInt memSum (.lit "cached_kb")

/-- A row under "Top Process Memory". -/
structure ProcUsageRow where
  pid : Int64
  cmd : Bytes
  rss : Int64
  initialRss : Int64
  heap : Int64
  initialHeap : Int64
  heapSize : Int64

def ProcUsageRow.rssChange (row : ProcUsageRow) : Int64 := row.rss - row.initialRss

def ProcUsageRow.heapChange (row : ProcUsageRow) : Int64 := row.heap - row.initialHeap

def ProcUsageRow.read (pos : Bytes) : ProcUsageRow where
  pid := jsonGetInt pos (.lit "pid")
  cmd := extractString pos (.lit "cmd") 127 (CStr.lit "unknown").bytes
  rss := jsonGetInt pos (.lit "rss_kb")
  initialRss := jsonGetInt pos (.lit "initial_rss_kb")
  heap := jsonGetInt pos (.lit "heap_rss_kb")
  initialHeap := jsonGetInt pos (.lit "initial_heap_rss_kb")
  heapSize := jsonGetInt pos (.lit "heap_size_kb")

/-- A row under "Top Slab Cache". -/
structure KernUsageRow where
  cache : Bytes
  total : Int64
  delta : Int64
  objs : Int64
  deltaObjs : Int64

def KernUsageRow.read (pos : Bytes) : KernUsageRow where
  cache := extractString pos (.lit "cache") 63 (CStr.lit "unknown").bytes
  total := jsonGetInt pos (.lit "total_bytes")
  delta := jsonGetInt pos (.lit "delta_bytes")
  objs := jsonGetInt pos (.lit "active_objs")
  deltaObjs := jsonGetInt pos (.lit "delta_objs")

/-- What `cmd_memleak` prints; `userLeaks` is the warning. -/
structure MemleakReport where
  memSum : Option SummaryReport
  procUsage : Option (List ProcUsageRow)
  kernUsage : Option (List KernUsageRow)
  userLeaks : Bool

/-- `cmd_memleak`, for the response of the daemon. -/
def cmdMemleak (response : Bytes) : Option MemleakReport :=
  (strstr response (keyPattern (.lit "memleak"))).map fun memleak => {
    memSum := (strstr memleak (keyPattern (.lit "memory_summary"))).map SummaryReport.read
    procUsage := (strstr memleak (keyPattern (.lit "process_usage"))).map fun procUsage =>
      arrayRows procUsage (.lit "pid") ProcUsageRow.read
    kernUsage := (strstr memleak (keyPattern (.lit "kernel_usage"))).map fun kernUsage =>
      arrayRows kernUsage (.lit "cache") KernUsageRow.read
    userLeaks := ((strstr memleak (keyPattern (.lit "user_leaks"))).map
      (objectBehind · (.lit "pid"))).getD false }

/-! ## The lists of the section -/

/-- The processes under `user_leaks`. -/
def userLeaks (priv : MemleakPriv) : List HeapmonEntry := heapmonGetEntries priv.heapmon 10

/-- The processes under `process_usage`. -/
def processUsage (qsort : Qsort) (priv : MemleakPriv) : List HeapmonEntry :=
  heapmonGetTopConsumers qsort priv.procmem priv.heapmon 10

/-- From `kernel_usage` on. -/
def kernUsageCalls (qsort : Qsort) (priv : MemleakPriv) (after : List (JsonCall ℚ)) :
    List (JsonCall ℚ) :=
  .key (.lit "kernel_usage") :: (arrayCalls
    (Slabinfo.slabinfoGetTopConsumers qsort priv.slabinfo 10) kernelUsageCalls ++
      .objectEnd :: after)

/-- From `process_usage` on. -/
def procUsageCalls (qsort : Qsort) (priv : MemleakPriv) (after : List (JsonCall ℚ)) :
    List (JsonCall ℚ) :=
  .key (.lit "process_usage") :: (arrayCalls (processUsage qsort priv) processUsageCalls ++
    kernUsageCalls qsort priv after)

section

variable {qsort : Qsort} {now : Int64} {ss post : List ServiceState} {priv : MemleakPriv}

theorem readable_kernUsageCalls (qsort : Qsort) (priv : MemleakPriv) (post : List ServiceState) :
    (kernUsageCalls qsort priv (afterCalls qsort post)).all JsonCall.readable = true := by
  refine readable_member rfl (all_arrayCalls checksKey_readable fun _ => rfl) ?_
  rw [List.all_cons, readable_afterCalls]
  rfl

theorem readable_procUsageCalls (qsort : Qsort) (priv : MemleakPriv) (post : List ServiceState) :
    (procUsageCalls qsort priv (afterCalls qsort post)).all JsonCall.readable = true :=
  readable_member rfl (all_arrayCalls checksKey_readable fun _ => rfl)
    (readable_kernUsageCalls qsort priv post)

theorem memleakSection_eq (qsort : Qsort) (priv : MemleakPriv) (post : List ServiceState) :
    ∃ front, sectionCalls qsort (.memleak priv) post = front ++ (JsonCall.key (.lit "user_leaks") ::
      (arrayCalls (userLeaks priv) userLeakCalls ++
        procUsageCalls qsort priv (afterCalls qsort post))) ∧
      NoKey (.lit "user_leaks") front ∧ NoKey (.lit "process_usage") front := by
  have hleak {k : CStr} (hk : ∀ e, NoKey k (kernelLeakCalls e : List (JsonCall ℚ)))
      (hfront : NoKey k (.key (.lit "memleak") :: .objectStart :: .key (.lit "memory_summary") ::
        (objectCalls [[.kvInt (.lit "total_kb") priv.meminfo.current.memTotalKb,
          .kvInt (.lit "free_kb") priv.meminfo.current.memFreeKb,
          .kvInt (.lit "available_kb") priv.meminfo.current.memAvailableKb,
          .kvInt (.lit "cached_kb") priv.meminfo.current.cachedKb]] ++
            [.key (.lit "kernel_leaks")]) : List (JsonCall ℚ))) :=
    hfront.append (noKey_arrayCalls hk (Slabinfo.slabinfoGetTopGrowers priv.slabinfo 10))
  refine ⟨_, ?_, hleak (fun _ => noKey_of_all rfl) (noKey_of_all rfl),
    hleak (fun _ => noKey_of_all rfl) (noKey_of_all rfl)⟩
  simp [sectionCalls, ServiceState.snapshot, memleakSnapshot, objectCalls, ServiceState.name,
    procUsageCalls, kernUsageCalls, userLeaks, processUsage, Meminfo.meminfoGetStatus]

theorem firstKey_userLeaks :
    firstKey (.lit "user_leaks") (sectionCalls qsort (.memleak priv) post) =
      some (.key (.lit "user_leaks") :: (arrayCalls (userLeaks priv) userLeakCalls ++
        procUsageCalls qsort priv (afterCalls qsort post))) := by
  obtain ⟨front, hsection, hno, -⟩ := memleakSection_eq qsort priv post
  rw [hsection, firstKey_append hno]
  rfl

theorem firstKey_procUsage :
    firstKey (.lit "process_usage") (sectionCalls qsort (.memleak priv) post) =
      some (procUsageCalls qsort priv (afterCalls qsort post)) := by
  obtain ⟨front, hsection, -, hno⟩ := memleakSection_eq qsort priv post
  have hleaks : NoKey (.lit "process_usage")
      (arrayCalls (userLeaks priv) userLeakCalls : List (JsonCall ℚ)) :=
    noKey_arrayCalls (fun _ => noKey_of_all rfl) _
  rw [hsection, firstKey_append hno]
  exact firstKey_append hleaks

/-! ## The rows of the processes -/

/-- The row of a process when `rest` follows it. -/
def ProcUsageRow.seen (e : HeapmonEntry) (rest : List (JsonCall ℚ)) : ProcUsageRow where
  pid := e.pid.toInt64
  cmd := (shown (cstr e.cmd)).take 127
  rss := e.rssKb
  initialRss := firstInt (.lit "initial_rss_kb") rest
  heap := e.heapRssKb
  initialHeap := firstInt (.lit "initial_heap_rss_kb") rest
  heapSize := e.heapSizeKb

/-- What heapmon lists of the process: nothing, if the service is another. -/
def ServiceState.heapEntries : ServiceState → List HeapmonEntry
  | .heapmon priv => priv.results
  | _ => []

/-- The two initial values of the first process that heapmon lists in these sections. -/
def laterBaseline (post : List ServiceState) : Int64 × Int64 :=
  (((post.flatMap ServiceState.heapEntries).head?).map fun e =>
    (e.initialRssKb, e.initialHeapRssKb)).getD (0, 0)

/-- A number that only heapmon writes. -/
theorem firstInt_heapmon (qsort : Qsort) (post : List ServiceState) {k : CStr}
    (value : HeapmonEntry → Int64)
    (hname : serviceNames.contains k = false)
    (hlist : NoKey k [.objectStart, .key (.lit "heap_entries"), (.arrayStart : JsonCall ℚ)])
    (hentry : ∀ e (rest : List (JsonCall ℚ)), firstInt k (Heapmon.entryCalls e ++ rest) = value e)
    (hother : ∀ st : ServiceState, st.heapEntries = [] → NoKey k (st.snapshot qsort)) :
    firstInt k (afterCalls qsort post) =
      (((post.flatMap ServiceState.heapEntries).head?).map value).getD 0 := by
  induction post with
  | nil => exact firstInt_none (by simp [afterCalls, NoKey, JsonCall.key?])
  | cons st post ih =>
    have hcons : afterCalls qsort (st :: post) =
        [JsonCall.key st.name] ++ (st.snapshot qsort ++ afterCalls qsort post) := by
      simp [afterCalls]
    have hkey : NoKey k [(.key st.name : JsonCall ℚ)] := by
      simp only [NoKey, List.mem_singleton, forall_eq, JsonCall.key?, ne_eq, Option.some_inj]
      rintro rfl
      rw [st.name_mem] at hname
      cases hname
    rw [hcons, firstInt_append hkey, List.flatMap_cons]
    cases hentries : st.heapEntries with
    | nil => rw [firstInt_append (hother st hentries), ih, List.nil_append]
    | cons e es =>
      cases st with
      | heapmon priv =>
        have hresults : priv.results = e :: es := hentries
        have hsplit : (ServiceState.heapmon priv).snapshot qsort =
            [JsonCall.objectStart, .key (.lit "heap_entries"), .arrayStart] ++
              (Heapmon.entryCalls e ++
                (es.flatMap Heapmon.entryCalls ++ [.arrayEnd, .objectEnd])) := by
          simp [ServiceState.snapshot, heapmonSnapshot, objectCalls, arrayCalls, hresults]
        rw [hsplit, List.append_assoc, firstInt_append hlist, List.append_assoc, hentry]
        rfl
      | _ => cases hentries

theorem firstInt_laterBaseline (qsort : Qsort) (post : List ServiceState) :
    (firstInt (.lit "initial_rss_kb") (afterCalls qsort post),
      firstInt (.lit "initial_heap_rss_kb") (afterCalls qsort post)) = laterBaseline post := by
  have hother {k : CStr} (hk : ∀ st : ServiceState, (∀ priv, st ≠ .heapmon priv) →
        st.fields.all (·.1 != k) = true)
      (hempty : NoKey k [.objectStart, .key (.lit "heap_entries"), .arrayStart, .arrayEnd,
        (.objectEnd : JsonCall ℚ)])
      (st : ServiceState) (hst : st.heapEntries = []) : NoKey k (st.snapshot qsort) := by
    cases st with
    | heapmon priv =>
      have hresults : priv.results = [] := hst
      have hsnap : (ServiceState.heapmon priv).snapshot qsort =
          [.objectStart, .key (.lit "heap_entries"), .arrayStart, .arrayEnd, .objectEnd] := by
        simp [ServiceState.snapshot, heapmonSnapshot, objectCalls, arrayCalls, hresults]
      rw [hsnap]
      exact hempty
    | _ => exact ServiceState.noKey qsort _ (hk _ fun _ h => by cases h)
  have hrss := firstInt_heapmon qsort post (k := .lit "initial_rss_kb")
    (fun e => e.initialRssKb) rfl (noKey_of_all rfl) (fun _ _ => rfl)
    (hother (by rintro ⟨⟩ hst <;> first | rfl | exact absurd rfl (hst _)) (noKey_of_all rfl))
  have hheap := firstInt_heapmon qsort post (k := .lit "initial_heap_rss_kb")
    (fun e => e.initialHeapRssKb) rfl (noKey_of_all rfl) (fun _ _ => rfl)
    (hother (by rintro ⟨⟩ hst <;> first | rfl | exact absurd rfl (hst _)) (noKey_of_all rfl))
  rw [hrss, hheap, laterBaseline]
  cases (post.flatMap ServiceState.heapEntries).head? <;> rfl

/-- The baseline of a process in heapmon, or, as `heapmon_collect` has it when there is no room for
one, its present values. -/
def heapBaseline (priv : HeapmonPriv) (e : HeapmonEntry) : Int64 × Int64 :=
  match priv.initial.find? fun init => init.pid = e.pid with
  | some init => (init.rssKb, init.heapRssKb)
  | none => (e.rssKb, e.heapRssKb)

/-- The row shows these initial values. -/
def ProcUsageRow.ShowsInitial (row : ProcUsageRow) (initial : Int64 × Int64) : Prop :=
  (row.initialRss, row.initialHeap) = initial

/-- A number that neither a row nor the kernel's usage has is one of a later section. -/
theorem firstInt_usage (qsort : Qsort) (priv : MemleakPriv) (post : List ServiceState)
    (es : List HeapmonEntry) {k : CStr}
    (hproc : ∀ e, NoKey k (processUsageCalls e : List (JsonCall ℚ)))
    (hkern : ∀ e, NoKey k (kernelUsageCalls e : List (JsonCall ℚ)))
    (hopen : NoKey k [.arrayEnd, (.key (.lit "kernel_usage") : JsonCall ℚ)])
    (hend : NoKey k [(.objectEnd : JsonCall ℚ)]) :
    firstInt k (es.flatMap processUsageCalls ++
      .arrayEnd :: kernUsageCalls qsort priv (afterCalls qsort post)) =
        firstInt k (afterCalls qsort post) := by
  have hes : NoKey k (es.flatMap processUsageCalls) := NoKey.flatMap fun e _ => hproc e
  have hall := (hes.append hopen).append
    ((noKey_arrayCalls hkern (Slabinfo.slabinfoGetTopConsumers qsort priv.slabinfo 10)).append
      hend)
  have hsplit : es.flatMap processUsageCalls ++
      JsonCall.arrayEnd :: kernUsageCalls qsort priv (afterCalls qsort post) =
        (es.flatMap processUsageCalls ++ [JsonCall.arrayEnd, .key (.lit "kernel_usage")] ++
          (arrayCalls (Slabinfo.slabinfoGetTopConsumers qsort priv.slabinfo 10)
            kernelUsageCalls ++ [.objectEnd])) ++ afterCalls qsort post := by
    rw [kernUsageCalls]
    simp only [List.append_assoc, List.cons_append, List.nil_append]
  rw [hsplit, firstInt_append hall]

/-- Behind each row there are no initial values but those of heapmon's own section. -/
theorem ProcUsageRow.seen_initial (qsort : Qsort) (priv : MemleakPriv) (post : List ServiceState)
    (e : HeapmonEntry) (es : List HeapmonEntry) :
    (ProcUsageRow.seen e (es.flatMap processUsageCalls ++
      .arrayEnd :: kernUsageCalls qsort priv (afterCalls qsort post))).ShowsInitial
        (laterBaseline post) := by
  have hbehind {k : CStr} (hproc : ∀ e, NoKey k (processUsageCalls e : List (JsonCall ℚ))) :=
    firstInt_usage qsort priv post es hproc
  rw [ProcUsageRow.ShowsInitial, ← firstInt_laterBaseline qsort post, ProcUsageRow.seen]
  simp only [Prod.mk.injEq]
  exact ⟨hbehind (fun _ => noKey_of_all rfl) (fun _ => noKey_of_all rfl) (noKey_of_all rfl)
      (noKey_of_all rfl),
    hbehind (fun _ => noKey_of_all rfl) (fun _ => noKey_of_all rfl) (noKey_of_all rfl)
      (noKey_of_all rfl)⟩

section

variable {printG : ℚ → CStr} (hprint : ∀ d, 0x22 ∉ (printG d).bytes)

include hprint

theorem ProcUsageRow.reads :
    ReadsWith printG processUsageCalls ProcUsageRow.read ProcUsageRow.seen := by
  intro e rest hrest
  have hall : (processUsageCalls e ++ rest).all JsonCall.readable = true := by
    rw [List.all_append, hrest]
    rfl
  have hident := identKeys_of_readable hall
  rw [ProcUsageRow.read, ProcUsageRow.seen,
    jsonGetInt_int hprint hident (k := .lit "pid") rfl (by decide) (v := e.pid.toInt64) rfl,
    extractString_value hprint hident (k := .lit "cmd") rfl (stringKey_of_readable hall rfl)
      (v := cstr e.cmd) rfl,
    jsonGetInt_int hprint hident (k := .lit "rss_kb") rfl (by decide) (v := e.rssKb) rfl,
    jsonGetInt_eq hprint hident (k := .lit "initial_rss_kb") rfl (by decide)
      (intKey_of_readable hall rfl),
    jsonGetInt_int hprint hident (k := .lit "heap_rss_kb") rfl (by decide) (v := e.heapRssKb) rfl,
    jsonGetInt_eq hprint hident (k := .lit "initial_heap_rss_kb") rfl (by decide)
      (intKey_of_readable hall rfl),
    jsonGetInt_int hprint hident (k := .lit "heap_size_kb") rfl (by decide) (v := e.heapSizeKb) rfl]
  rfl

/-- The rows of a snapshot that has a memleak section: first those of its processes. -/
theorem cmdMemleak_procUsage (now : Int64)
    (hfind : findSection (.lit "memleak") ss = some (.memleak priv, post)) :
    ∃ more, (cmdMemleak (document printG qsort now ss)).bind (·.procUsage) =
      some (rowsWith processUsageCalls ProcUsageRow.seen
        (.arrayEnd :: kernUsageCalls qsort priv (afterCalls qsort post))
        (processUsage qsort priv) ++ more) := by
  refine ⟨(objectsWith (.lit "pid") (kernUsageCalls qsort priv (afterCalls qsort post))).map
    fun cs => ProcUsageRow.read (callText printG false cs), ?_⟩
  rw [cmdMemleak, strstr_section_some hprint hfind, Option.map_some, Option.bind_some,
    strstr_member hprint rfl firstKey_procUsage, Option.map_some, procUsageCalls,
    arrayRows_with hprint rfl rfl (fun _ _ => rfl) (ProcUsageRow.reads hprint) (fun _ => rfl)
      (readable_kernUsageCalls qsort priv post)]

/-- **When the warning is printed.** -/
theorem cmdMemleak_userLeaks_iff
    (hfind : findSection (.lit "memleak") ss = some (.memleak priv, post)) :
    (cmdMemleak (document printG qsort now ss)).map (·.userLeaks) = some true ↔
      userLeaks priv ≠ [] ∨ processUsage qsort priv ≠ [] ∨
        ∃ st ∈ post, st.Lists qsort (.lit "pid") := by
  have hkern : objectsWith (.lit "pid") (kernUsageCalls qsort priv (afterCalls qsort post)) = [] ↔
      ∀ st ∈ post, ¬ st.Lists qsort (.lit "pid") := by
    rw [← objectsWith_afterCalls]
    exact Eq.congr_left (objectsWith_array_skip (fun _ _ => rfl)
      (Slabinfo.slabinfoGetTopConsumers qsort priv.slabinfo 10))
  have hmore : objectsWith (.lit "pid") (procUsageCalls qsort priv (afterCalls qsort post)) = [] ↔
      processUsage qsort priv = [] ∧ ∀ st ∈ post, ¬ st.Lists qsort (.lit "pid") := by
    rw [← hkern]
    exact objectsWith_array_eq_nil (fun _ _ => rfl) (processUsage qsort priv)
  rw [cmdMemleak, strstr_section_some hprint hfind, Option.map_some, Option.map_some,
    strstr_member hprint rfl firstKey_userLeaks, Option.map_some, Option.getD_some, Option.some_inj,
    objectBehind_iff hprint rfl rfl (fun _ _ => rfl) (fun _ => rfl)
      (readable_procUsageCalls qsort priv post), ne_eq (objectsWith _ _), hmore]
  simp only [ne_eq, not_and_or, not_forall, not_not, exists_prop]

end

end

end Qmem
