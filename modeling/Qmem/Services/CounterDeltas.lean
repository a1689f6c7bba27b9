import Qmem.Lib.Assign
import Qmem.Lib.Deltas
import Qmem.Lib.FirstSeen
import Qmem.Services.Meminfo
import Qmem.Services.SockstatCount

/-!
# The changes meminfo and sockstat report

Both services keep the sample before next to the current one, both start from zeros, and both
report the difference already at the first collection. It is then the value itself.

Main result: `deltas_right_iff`.
-/

namespace Qmem

open CLib Deltas

/-! ## Reading a snapshot -/

section

variable {δ : Type}

/-- The numbers among the calls, with their names. -/
def ints : List (JsonCall δ) → List (Bytes × Int64)
  | [] => []
  | .kvInt name value :: calls => (name.bytes, value) :: ints calls
  | _ :: calls => ints calls

/-- The calls up to the end of an object. -/
def untilEnd : List (JsonCall δ) → List (JsonCall δ)
  | [] => []
  | .objectEnd :: _ => []
  | call :: calls => call :: untilEnd calls

/-- The objects among the calls, with their names. -/
def objects : List (JsonCall δ) → List (Bytes × List (JsonCall δ))
  | [] => []
  | .key name :: calls => (name.bytes, untilEnd calls) :: objects calls
  | _ :: calls => objects calls

/-- What has this name. -/
def named {α : Type} (name : Bytes) (entries : List (Bytes × α)) : Option α :=
  (entries.find? fun entry => entry.1 = name).map Prod.snd

theorem named_of_mem {α : Type} {name : Bytes} {a : α} {entries : List (Bytes × α)}
    (h : (entries.map Prod.fst).Nodup) (hmem : (name, a) ∈ entries) (rest : List (Bytes × α)) :
    named name (entries ++ rest) = some a := by
  have hfind : entries.find? (fun entry => entry.1 = name) = some (name, a) :=
    FirstSeen.find?_of_nodup h hmem
  rw [named, List.find?_append, hfind]
  rfl

/-- A counter written as an object: its value, and its change, if there is one. -/
def objectReading (name : Bytes) (calls : List (JsonCall δ)) : Option Reading := do
  let object ← named name (objects calls)
  let value ← named (CStr.lit "value").bytes (ints object)
  return ⟨value, named (CStr.lit "delta").bytes (ints object)⟩

/-- A counter written as a number, and its change as another, if there is one. -/
def intReading (name deltaName : Bytes) (calls : List (JsonCall δ)) : Option Reading := do
  let value ← named name (ints calls)
  return ⟨value, named deltaName (ints calls)⟩

end

namespace Meminfo

/-! ## The counters of `/proc/meminfo` -/

/-- A counter, under its name in a snapshot and its name in `/proc/meminfo`. -/
structure MeminfoCounter where
  name : CStr
  key : CStr
  field : MeminfoData → Int64
  update : MeminfoData → Int64 → MeminfoData

def meminfoCounters : List MeminfoCounter := [
  ⟨.lit "total_kb", .lit "MemTotal", (·.memTotalKb), ({ · with memTotalKb := · })⟩,
  ⟨.lit "available_kb", .lit "MemAvailable", (·.memAvailableKb),
    ({ · with memAvailableKb := · })⟩,
  ⟨.lit "free_kb", .lit "MemFree", (·.memFreeKb), ({ · with memFreeKb := · })⟩,
  ⟨.lit "buffers_kb", .lit "Buffers", (·.buffersKb), ({ · with buffersKb := · })⟩,
  ⟨.lit "cached_kb", .lit "Cached", (·.cachedKb), ({ · with cachedKb := · })⟩,
  ⟨.lit "slab_kb", .lit "Slab", (·.slabKb), ({ · with slabKb := · })⟩,
  ⟨.lit "sreclaimable_kb", .lit "SReclaimable", (·.sreclaimableKb), ({ · with sreclaimableKb := · })⟩,
  ⟨.lit "sunreclaim_kb", .lit "SUnreclaim", (·.sunreclaimKb), ({ · with sunreclaimKb := · })⟩,
  ⟨.lit "active_kb", .lit "Active", (·.activeKb), ({ · with activeKb := · })⟩,
  ⟨.lit "inactive_kb", .lit "Inactive", (·.inactiveKb), ({ · with inactiveKb := · })⟩,
  ⟨.lit "anon_pages_kb", .lit "AnonPages", (·.anonPagesKb), ({ · with anonPagesKb := · })⟩,
  ⟨.lit "vmalloc_used_kb", .lit "VmallocUsed", (·.vmallocUsedKb), ({ · with vmallocUsedKb := · })⟩,
  ⟨.lit "page_tables_kb", .lit "PageTables", (·.pageTablesKb), ({ · with pageTablesKb := · })⟩,
  ⟨.lit "kernel_stack_kb", .lit "KernelStack", (·.kernelStackKb), ({ · with kernelStackKb := · })⟩,
  ⟨.lit "dirty_kb", .lit "Dirty", (·.dirtyKb), ({ · with dirtyKb := · })⟩,
  ⟨.lit "mapped_kb", .lit "Mapped", (·.mappedKb), ({ · with mappedKb := · })⟩]

theorem nodup_keys : (meminfoCounters.map fun c => c.key.bytes).Nodup := by decide +kernel

theorem field_update_same {c : MeminfoCounter} (hc : c ∈ meminfoCounters) (data : MeminfoData)
    (value : Int64) : c.field (c.update data value) = value := by
  revert c
  simp only [meminfoCounters, List.forall_mem_cons, List.not_mem_nil, false_imp_iff, implies_true,
    and_self]

/-- Setting a counter leaves the others. -/
theorem field_update_other {c c' : MeminfoCounter} (hc : c ∈ meminfoCounters)
    (hc' : c' ∈ meminfoCounters) (hne : c ≠ c') (data : MeminfoData) (value : Int64) :
    c.field (c'.update data value) = c.field data := by
  have hall : ∀ c ∈ meminfoCounters, ∀ c' ∈ meminfoCounters,
      c = c' ∨ c.field (c'.update data value) = c.field data := by
    simp only [meminfoCounters, List.forall_mem_cons, List.not_mem_nil, false_imp_iff,
      implies_true, and_true, true_or, or_true]
  exact (hall c hc c' hc').resolve_left hne

theorem set_eq (data : MeminfoData) (key : Bytes) (value : Int64) :
    data.set key value =
      (meminfoCounters.find? fun c => key = c.key.bytes).elim data fun c => c.update data value := by
  rw [meminfoCounters]
  simp only [Assign.elim_find?_cons]
  rfl

theorem field_set {c : MeminfoCounter} (hc : c ∈ meminfoCounters) (data : MeminfoData)
    (key : Bytes) (value : Int64) :
    c.field (data.set key value) = if key = c.key.bytes then value else c.field data := by
  rw [set_eq]
  cases hfind : meminfoCounters.find? fun c => key = c.key.bytes with
  | none =>
    have hne : key ≠ c.key.bytes := by simpa using List.find?_eq_none.1 hfind c hc
    rw [if_neg hne]
    rfl
  | some c' =>
    have hc' : c' ∈ meminfoCounters := List.mem_of_find?_eq_some hfind
    have hkey : key = c'.key.bytes := by simpa using List.find?_some hfind
    show c.field (c'.update data value) = _
    split_ifs with h
    · rw [List.inj_on_of_nodup_map nodup_keys hc hc' (h.symm.trans hkey)]
      exact field_update_same hc' data value
    · exact field_update_other hc hc' (fun heq => h (heq ▸ hkey)) data value

/-- The value a line gives a counter. -/
def MeminfoCounter.assigned (c : MeminfoCounter) (line : Bytes) : Option Int64 :=
  (procParseKvKb line 64).bind fun (key, value) =>
    if value ≥ 0 ∧ key = c.key.bytes then some value else none

theorem field_meminfoLine {c : MeminfoCounter} (hc : c ∈ meminfoCounters) (data : MeminfoData)
    (line : Bytes) : c.field (meminfoLine data line) = (c.assigned line).getD (c.field data) := by
  rw [meminfoLine, MeminfoCounter.assigned]
  cases procParseKvKb line 64 with
  | none => rfl
  | some entry =>
    obtain ⟨key, value⟩ := entry
    simp only [Option.bind_some, ge_iff_le]
    by_cases hvalue : 0 ≤ value
    · rw [if_pos hvalue, field_set hc]
      split_ifs with hkey h h
      · rfl
      · exact absurd ⟨hvalue, hkey⟩ h
      · exact absurd h.2 hkey
      · rfl
    · rw [if_neg hvalue, if_neg fun h => hvalue h.1]
      rfl

theorem field_zero {c : MeminfoCounter} (hc : c ∈ meminfoCounters) : c.field zeroData = 0 := by
  revert c
  simp only [meminfoCounters, List.forall_mem_cons, List.not_mem_nil, false_imp_iff, implies_true,
    zeroData, and_self]

theorem field_withUsage {c : MeminfoCounter} (hc : c ∈ meminfoCounters) (data : MeminfoData) :
    c.field data.withUsage = c.field data := by
  rw [MeminfoData.withUsage]
  split
  · revert c
    simp only [meminfoCounters, List.forall_mem_cons, List.not_mem_nil, false_imp_iff,
      implies_true, and_self]
  · rfl

/-! ## What a snapshot says of them -/

theorem objects_snapshot (current previous : MeminfoData) :
    (∀ c ∈ meminfoCounters, (c.name.bytes, [
        JsonCall.objectStart,
        .kvInt (.lit "value") (c.field current),
        .kvInt (.lit "delta") (c.field current - c.field previous)]) ∈
      objects (meminfoSnapshot ⟨current, previous, true⟩)) ∧
    ((objects (meminfoSnapshot ⟨current, previous, true⟩)).map Prod.fst).Nodup := by
  simp only [meminfoSnapshot, writeDelta, objectCalls, if_true, List.flatten_cons, List.flatten_nil,
    List.cons_append, List.nil_append, List.append_nil, objects, untilEnd, List.map_cons,
    List.map_nil]
  constructor
  · simp only [meminfoCounters, List.forall_mem_cons, List.not_mem_nil, false_imp_iff, implies_true]
    simp only [List.mem_cons, true_or, or_true, and_self]
  · decide +kernel

theorem objectReading_snapshot (current previous : MeminfoData) {c : MeminfoCounter}
    (hc : c ∈ meminfoCounters) :
    objectReading c.name.bytes (meminfoSnapshot ⟨current, previous, true⟩) =
      some ⟨c.field current, some (c.field current - c.field previous)⟩ := by
  obtain ⟨hmem, hnodup⟩ := objects_snapshot current previous
  have hne : (CStr.lit "value").bytes ≠ (CStr.lit "delta").bytes := by decide +kernel
  have hobject := named_of_mem hnodup (hmem c hc) []
  rw [List.append_nil] at hobject
  rw [objectReading, hobject]
  simp [ints, named, hne]

/-! ## A run -/

/-- What one collection reads, and what is in the array before. -/
structure MeminfoRead where
  file : ProcFile
  buf : Bytes

/-- The text that is read. -/
def MeminfoRead.text (r : MeminfoRead) : Bytes := (cstr (procReadFile r.file r.buf 8192).1).bytes

/-- The value of a counter in the text: that of the last line for it. -/
def MeminfoRead.value (r : MeminfoRead) (c : MeminfoCounter) : Int64 :=
  Assign.last c.assigned (lineStarts r.text) 0

theorem parseMeminfo_field {r : MeminfoRead} {data : MeminfoData}
    (h : parseMeminfo r.file r.buf = some data) {c : MeminfoCounter} (hc : c ∈ meminfoCounters) :
    c.field data = r.value c := by
  rw [MeminfoRead.value, MeminfoRead.text]
  rw [parseMeminfo] at h
  split at h
  · exact absurd h (Option.some_ne_none data).symm
  · case h_2 buf n hread =>
    rw [← Option.some.inj h, field_withUsage hc, hread,
      Assign.get_foldl (field_meminfoLine hc), field_zero hc]

theorem value_nonneg (r : MeminfoRead) (c : MeminfoCounter) : 0 ≤ (r.value c).toInt := by
  refine Assign.last_of_forall (P := fun v : Int64 => 0 ≤ v.toInt) (by decide) fun line _ v hv => ?_
  obtain ⟨⟨key, value⟩, _, hentry⟩ := Option.bind_eq_some_iff.1 hv
  obtain ⟨⟨hvalue, _⟩, hentry⟩ := Option.ite_none_right_eq_some.1 hentry
  rw [← Option.some.inj hentry]
  exact Int64.le_iff_toInt_le.1 hvalue

/-- Collections that all succeed, with a snapshot after each of them. -/
def meminfoRun : List MeminfoRead → MeminfoPriv → Option (List (List (JsonCall ℚ)))
  | [], _ => some []
  | r :: reads, priv =>
    match meminfoCollect r.file r.buf priv with
    | (priv, true) => (meminfoRun reads priv).map (meminfoSnapshot priv :: ·)
    | (_, false) => none

/-- The counters of a snapshot. -/
def meminfoReport (calls : List (JsonCall ℚ)) (c : MeminfoCounter) : Option Reading :=
  objectReading c.name.bytes calls

theorem meminfoRun_give {reads : List MeminfoRead} {priv : MeminfoPriv}
    {snapshots : List (List (JsonCall ℚ))} (h : meminfoRun reads priv = some snapshots)
    {previous : MeminfoCounter → Int64}
    (hprevious : ∀ c ∈ meminfoCounters, c.field priv.current = previous c) :
    Give meminfoCounters previous (reads.map MeminfoRead.value) (snapshots.map meminfoReport) := by
  induction reads generalizing priv snapshots previous with
  | nil =>
    rw [← Option.some.inj h]
    exact Give.nil _
  | cons r reads ih =>
    rw [meminfoRun, meminfoCollect] at h
    cases hparse : parseMeminfo r.file r.buf with
    | none =>
      rw [hparse] at h
      exact absurd h.symm (Option.some_ne_none _)
    | some data =>
      rw [hparse] at h
      obtain ⟨later, hlater, rfl⟩ := Option.map_eq_some_iff.1 h
      have hdata (c : MeminfoCounter) (hc : c ∈ meminfoCounters) : c.field data = r.value c :=
        parseMeminfo_field hparse hc
      refine Give.cons (fun c hc => ?_) (ih hlater hdata)
      rw [← hdata c hc, ← hprevious c hc]
      exact objectReading_snapshot data priv.current hc

theorem meminfo_right_iff {reads : List MeminfoRead} {snapshots : List (List (JsonCall ℚ))}
    (h : meminfoRun reads meminfoInit = some snapshots) :
    Right meminfoCounters (snapshots.map meminfoReport) ↔
      ∀ r ∈ reads.head?, ∀ c ∈ meminfoCounters, r.value c = 0 := by
  have hgive := meminfoRun_give h (fun c hc => field_zero hc)
  rw [hgive.right_iff (fun c _ => rfl), List.head?_map]
  · simp
  · intro value hvalue c _
    obtain ⟨r, _, rfl⟩ := List.mem_map.1 hvalue
    exact value_nonneg r c

end Meminfo

namespace Sockstat

/-! ## The sockets -/

/-- A counter that is reported with its change; `close_wait` and `listen` never are. -/
structure SockCounter where
  name : CStr
  deltaName : CStr
  field : SockstatSummary → Int32

def sockCounters : List SockCounter := [
  ⟨.lit "total", .lit "total_delta", (·.tcpTotal)⟩,
  ⟨.lit "established", .lit "established_delta", (·.tcpEstablished)⟩,
  ⟨.lit "time_wait", .lit "time_wait_delta", (·.tcpTimeWait)⟩,
  ⟨.lit "udp_total", .lit "udp_total_delta", (·.udpTotal)⟩,
  ⟨.lit "unix_total", .lit "unix_total_delta", (·.unixTotal)⟩]

/-- The states of the sockets of the TCP table, its first line apart. -/
def SockFiles.states (files : SockFiles) : List UInt32 :=
  (fgetsAll 512 (files.tcp.getD [])).tail.filterMap socketState

theorem parseTcpDetailed_states (files : SockFiles) (priv : SockstatPriv) :
    (parseTcpDetailed files.tcp priv).summary =
      (files.states.take (maxSockets - priv.sockets.length)).foldl
        SockstatSummary.countTcp priv.summary := by
  rw [parseTcpDetailed, SockFiles.states]
  cases fgetsAll 512 (files.tcp.getD []) with
  | nil =>
    rw [List.tail_nil, List.filterMap_nil, List.take_nil]
    rfl
  | cons header lines => exact tcpLoop_states lines priv

/-- The lines of a table that are read, its first line apart. -/
def linesRead (file : ProcFile) (buf : Bytes) : Nat :=
  match procReadFile file buf 65536 with
  | (_, none) => 0
  | (buf, some _) => (lineStarts (cstr buf).bytes).length - 1

theorem countLines_eq (file : ProcFile) (buf : Bytes) :
    countLines file buf 1 = .ofNat (linesRead file buf) := by
  rw [countLines, linesRead]
  obtain ⟨read, _ | n⟩ := procReadFile file buf 65536
  · rfl
  · simp only [foldl_countLine]

theorem linesRead_le (file : ProcFile) (buf : Bytes) : linesRead file buf ≤ 65535 := by
  rw [linesRead]
  split
  · exact Nat.zero_le _
  · case h_2 read n hread =>
    have hterminated : (cstr (procReadFile file buf 65536).1).length ≤ 65535 :=
      procReadFile_terminated (by rw [hread])
    have hlines := lineStarts_length_le (cstr read).bytes
    rw [hread] at hterminated
    exact Nat.le_trans (Nat.sub_le _ 1) (Nat.le_trans hlines hterminated)

/-- The summary of these files. -/
def SockFiles.summary (files : SockFiles) : SockstatSummary where
  tcpEstablished := .ofNat ((files.states.take maxSockets).count 1)
  tcpTimeWait := .ofNat ((files.states.take maxSockets).count 6)
  tcpCloseWait := .ofNat ((files.states.take maxSockets).count 8)
  tcpListen := .ofNat ((files.states.take maxSockets).count 10)
  tcpTotal := .ofNat (files.states.take maxSockets).length
  udpTotal := .ofNat (linesRead files.udp files.stack + linesRead files.udp6 files.stack)
  unixTotal := .ofNat (linesRead files.unix files.stack)

theorem tcpLine_previous (priv : SockstatPriv) (line : Bytes) :
    (tcpLine priv line).previousSummary = priv.previousSummary := by
  rw [tcpLine]
  split <;> rfl

theorem tcpLoop_previous (lines : List Bytes) (priv : SockstatPriv) :
    (tcpLoop lines priv).previousSummary = priv.previousSummary := by
  induction lines generalizing priv with
  | nil => rfl
  | cons line lines ih =>
    rw [tcpLoop]
    split
    · rw [ih, tcpLine_previous]
    · rfl

theorem parseTcpDetailed_previous (tcp : Option Bytes) (priv : SockstatPriv) :
    (parseTcpDetailed tcp priv).previousSummary = priv.previousSummary := by
  rw [parseTcpDetailed]
  cases fgetsAll 512 (tcp.getD []) with
  | nil => rfl
  | cons header lines => exact tcpLoop_previous lines priv

theorem sockstatCollect_eq (files : SockFiles) (priv : SockstatPriv) :
    (sockstatCollect files priv).summary = files.summary ∧
      (sockstatCollect files priv).previousSummary = priv.summary := by
  have hstates := parseTcpDetailed_states files {
    summary := emptySummary, previousSummary := priv.summary, sockets := [], hasPrevious := true }
  rw [List.length_nil, Nat.sub_zero, foldl_countTcp] at hstates
  constructor
  · simp only [sockstatCollect, mapInodesToPids, hstates, countLines_eq, ← Int32.ofNat_add,
      SockFiles.summary]
  · simp only [sockstatCollect, mapInodesToPids, parseTcpDetailed_previous]

/-- The counters are small. -/
structure Small (files : SockFiles) : Prop where
  tcp : (files.states.take maxSockets).length ≤ 131070
  count : ∀ state, (files.states.take maxSockets).count state ≤ 131070
  udp : linesRead files.udp files.stack + linesRead files.udp6 files.stack ≤ 131070
  unix : linesRead files.unix files.stack ≤ 131070

theorem small (files : SockFiles) : Small files := by
  have hlen : (files.states.take maxSockets).length ≤ 1024 := List.length_take_le _ _
  have hudp := linesRead_le files.udp files.stack
  have hudp6 := linesRead_le files.udp6 files.stack
  have hunix := linesRead_le files.unix files.stack
  exact ⟨by omega, fun _ => Nat.le_trans List.count_le_length (by omega), by omega, by omega⟩

theorem field_nonneg (files : SockFiles) {c : SockCounter} (hc : c ∈ sockCounters) :
    0 ≤ (c.field files.summary).toInt := by
  have hnonneg {n : Nat} (h : n ≤ 131070) : 0 ≤ (Int32.ofNat n).toInt := by
    rw [Int32.toInt_ofNat_of_lt (by omega)]
    exact Int.natCast_nonneg n
  have hsmall := small files
  simp only [sockCounters, List.mem_cons, List.not_mem_nil, or_false] at hc
  rcases hc with rfl | rfl | rfl | rfl | rfl
  · exact hnonneg hsmall.tcp
  · exact hnonneg (hsmall.count 1)
  · exact hnonneg (hsmall.count 6)
  · exact hnonneg hsmall.udp
  · exact hnonneg hsmall.unix

/-! ## What a snapshot says of them -/

theorem toInt64_sub_of_nonneg {a b : Int32} (ha : 0 ≤ a.toInt) (hb : 0 ≤ b.toInt) :
    (a - b).toInt64 = a.toInt64 - b.toInt64 := by
  have hta := a.toInt_lt
  have htb := b.toInt_lt
  rw [← Int64.toInt_inj, toInt_sub_of_nonneg (by rwa [Int32.toInt_toInt64])
    (by rwa [Int32.toInt_toInt64]), Int32.toInt_toInt64, Int32.toInt_toInt64, Int32.toInt_toInt64,
    Int32.toInt_sub, Int.bmod_eq_of_le (by omega) (by omega)]

/-- The numbers ahead of the sockets. -/
def summaryInts (cur prev : SockstatSummary) : List (Bytes × Int64) := [
  ((CStr.lit "total").bytes, cur.tcpTotal.toInt64),
  ((CStr.lit "total_delta").bytes, (cur.tcpTotal - prev.tcpTotal).toInt64),
  ((CStr.lit "established").bytes, cur.tcpEstablished.toInt64),
  ((CStr.lit "established_delta").bytes, (cur.tcpEstablished - prev.tcpEstablished).toInt64),
  ((CStr.lit "time_wait").bytes, cur.tcpTimeWait.toInt64),
  ((CStr.lit "time_wait_delta").bytes, (cur.tcpTimeWait - prev.tcpTimeWait).toInt64),
  ((CStr.lit "close_wait").bytes, cur.tcpCloseWait.toInt64),
  ((CStr.lit "listen").bytes, cur.tcpListen.toInt64),
  ((CStr.lit "udp_total").bytes, cur.udpTotal.toInt64),
  ((CStr.lit "udp_total_delta").bytes, (cur.udpTotal - prev.udpTotal).toInt64),
  ((CStr.lit "unix_total").bytes, cur.unixTotal.toInt64),
  ((CStr.lit "unix_total_delta").bytes, (cur.unixTotal - prev.unixTotal).toInt64)]

theorem ints_snapshot (priv : SockstatPriv) :
    ∃ rest, ints (sockstatSnapshot priv : List (JsonCall ℚ)) =
      summaryInts priv.summary priv.previousSummary ++ rest :=
  ⟨_, rfl⟩

theorem summaryInts_mem (cur prev : SockstatSummary) : ∀ c ∈ sockCounters,
    (c.name.bytes, (c.field cur).toInt64) ∈ summaryInts cur prev ∧
      (c.deltaName.bytes, (c.field cur - c.field prev).toInt64) ∈ summaryInts cur prev := by
  simp only [sockCounters, List.forall_mem_cons, List.not_mem_nil, false_imp_iff, implies_true]
  simp only [summaryInts, List.mem_cons, true_or, or_true, and_self]

theorem summaryInts_nodup (cur prev : SockstatSummary) :
    ((summaryInts cur prev).map Prod.fst).Nodup := by
  have hnames : (summaryInts cur prev).map Prod.fst =
    (summaryInts emptySummary emptySummary).map Prod.fst := rfl
  rw [hnames]
  decide +kernel

/-- The counters of a snapshot. -/
def sockReport (calls : List (JsonCall ℚ)) (c : SockCounter) : Option Reading :=
  intReading c.name.bytes c.deltaName.bytes calls

theorem sockReport_snapshot (priv : SockstatPriv) {c : SockCounter}
    (hc : c ∈ sockCounters) : sockReport (sockstatSnapshot priv) c =
      some ⟨(c.field priv.summary).toInt64,
        some (c.field priv.summary - c.field priv.previousSummary).toInt64⟩ := by
  obtain ⟨rest, hints⟩ := ints_snapshot priv
  have hnodup := summaryInts_nodup priv.summary priv.previousSummary
  obtain ⟨hvalue, hdelta⟩ := summaryInts_mem priv.summary priv.previousSummary c hc
  rw [sockReport, intReading, hints, named_of_mem hnodup hvalue, named_of_mem hnodup hdelta]
  rfl

/-! ## A run -/

/-- Collections, which always succeed, with a snapshot after each of them. -/
def sockstatRun : List SockFiles → SockstatPriv → List (List (JsonCall ℚ))
  | [], _ => []
  | files :: later, priv =>
    sockstatSnapshot (sockstatCollect files priv) :: sockstatRun later (sockstatCollect files priv)

theorem sockstatRun_give (runs : List SockFiles) (priv : SockstatPriv)
    (hpriv : ∀ c ∈ sockCounters, 0 ≤ (c.field priv.summary).toInt) :
    Give sockCounters (fun c => (c.field priv.summary).toInt64)
      (runs.map fun files c => (c.field files.summary).toInt64)
      ((sockstatRun runs priv).map sockReport) := by
  induction runs generalizing priv with
  | nil => exact Give.nil _
  | cons files later ih =>
    obtain ⟨hsummary, hprevious⟩ := sockstatCollect_eq files priv
    have hnonneg (c : SockCounter) (hc : c ∈ sockCounters) := field_nonneg files hc
    have hlater := ih (sockstatCollect files priv) (by rwa [hsummary])
    rw [hsummary] at hlater
    refine Give.cons (fun c hc => ?_) hlater
    rw [sockReport_snapshot _ hc, hsummary, hprevious,
      toInt64_sub_of_nonneg (hnonneg c hc) (hpriv c hc)]

/-- No sockets, and no lines behind the first ones. -/
structure SockFiles.Empty (files : SockFiles) : Prop where
  tcp : files.states = []
  udp : linesRead files.udp files.stack = 0
  udp6 : linesRead files.udp6 files.stack = 0
  unix : linesRead files.unix files.stack = 0

theorem summary_zero_iff (files : SockFiles) :
    (∀ c ∈ sockCounters, (c.field files.summary).toInt64 = 0) ↔ files.Empty := by
  have hsmall := small files
  have hzero {n : Nat} (h : n ≤ 131070) : (Int32.ofNat n).toInt64 = 0 ↔ n = 0 := by
    rw [← Int64.toInt_inj, Int32.toInt_toInt64, Int32.toInt_ofNat_of_lt (by omega)]
    exact Int.natCast_eq_zero
  simp only [sockCounters, List.forall_mem_cons, List.not_mem_nil, false_imp_iff, implies_true,
    and_true, SockFiles.summary, hzero hsmall.tcp, hzero (hsmall.count 1), hzero (hsmall.count 6),
    hzero hsmall.udp, hzero hsmall.unix]
  constructor
  · rintro ⟨htcp, _, _, hudp, hunix⟩
    rw [List.length_take] at htcp
    have hmax : maxSockets = 1024 := rfl
    exact ⟨List.eq_nil_of_length_eq_zero (by omega), by omega, by omega, hunix⟩
  · intro h
    rw [h.tcp, List.take_nil, h.udp, h.udp6, h.unix]
    exact ⟨rfl, rfl, rfl, rfl, rfl⟩

theorem sockstat_right_iff (runs : List SockFiles) :
    Right sockCounters ((sockstatRun runs sockstatInit).map sockReport) ↔
      ∀ files ∈ runs.head?, files.Empty := by
  have hinit (c : SockCounter) (hc : c ∈ sockCounters) : c.field sockstatInit.summary = 0 := by
    revert c
    simp only [sockCounters, List.forall_mem_cons, List.not_mem_nil, false_imp_iff, implies_true,
      sockstatInit, emptySummary, and_self]
  have hgive := sockstatRun_give runs sockstatInit
    fun c hc => by rw [hinit c hc]; decide
  rw [hgive.right_iff (fun c hc => by rw [hinit c hc]; rfl), List.head?_map]
  · cases runs with
    | nil => simp
    | cons files later => simpa using summary_zero_iff files
  · intro value hvalue c hc
    obtain ⟨files, _, rfl⟩ := List.mem_map.1 hvalue
    rw [Int32.toInt_toInt64]
    exact field_nonneg files hc

end Sockstat

open Meminfo Sockstat

/-- **The changes** meminfo and sockstat report are right exactly when there is nothing to report
at the first collection of either. -/
theorem deltas_right_iff (reads : List MeminfoRead) (runs : List SockFiles)
    (snapshots : List (List (JsonCall ℚ))) (h : meminfoRun reads meminfoInit = some snapshots) :
    Right meminfoCounters (snapshots.map meminfoReport) ∧
        Right sockCounters ((sockstatRun runs sockstatInit).map sockReport) ↔
      (∀ r ∈ reads.head?, ∀ c ∈ meminfoCounters, r.value c = 0) ∧
        ∀ files ∈ runs.head?, files.Empty :=
  and_congr (meminfo_right_iff h) (sockstat_right_iff runs)

/-! ## Runs with a little memory -/

/-- A file with this text. -/
def textRead (text : Bytes) : MeminfoRead where
  file := some [.data text]
  buf := []

theorem deltas_right_zero : ∃ snapshots,
    meminfoRun [textRead [], textRead (CStr.lit "MemTotal: 5 kB").bytes] meminfoInit =
        some snapshots ∧
      Right meminfoCounters (snapshots.map meminfoReport) ∧
        Right sockCounters
          ((sockstatRun [listenerFiles 0, listenerFiles 3] sockstatInit).map sockReport) := by
  have hrun : (meminfoRun [textRead [], textRead (CStr.lit "MemTotal: 5 kB").bytes]
    meminfoInit).isSome := by decide +kernel
  obtain ⟨snapshots, h⟩ := Option.isSome_iff_exists.1 hrun
  refine ⟨snapshots, h, (deltas_right_iff _ _ _ h).2 ⟨fun r hr c _ => ?_, fun files hfiles => ?_⟩⟩
  · rw [← Option.some.inj hr]
    rfl
  · rw [← Option.some.inj hfiles]
    exact ⟨by decide +kernel, by decide +kernel, by decide +kernel, by decide +kernel⟩

/-- The size of the memory is reported as its change. -/
theorem deltas_wrong : ∃ snapshots,
    meminfoRun [textRead (CStr.lit "MemTotal: 5 kB").bytes] meminfoInit = some snapshots ∧
      ¬ (Right meminfoCounters (snapshots.map meminfoReport) ∧
        Right sockCounters ((sockstatRun [] sockstatInit).map sockReport)) := by
  have hrun : (meminfoRun [textRead (CStr.lit "MemTotal: 5 kB").bytes] meminfoInit).isSome := by
    decide +kernel
  obtain ⟨snapshots, h⟩ := Option.isSome_iff_exists.1 hrun
  refine ⟨snapshots, h, fun hright => ?_⟩
  have hzero := (meminfo_right_iff h).1 hright.1 _ rfl _ List.mem_cons_self
  exact absurd hzero (by decide +kernel)

end Qmem
