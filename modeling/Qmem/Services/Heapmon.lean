import Qmem.Lib.ExchangeSort
import Qmem.Lib.Lines
import Qmem.Lib.Scan
import Qmem.Services.Procmem

/-!
# Heaps (`services/heapmon.c`)

The heap mappings of a few processes. The results stay in their slots from one collection to the
next; `resultCount` says how many of them are of the last one.
-/

namespace Qmem

open CLib

namespace Heapmon

def maxTargets : Nat := 12

/-- `heap_data_t`. -/
structure HeapData where
  pid : Int32
  heapSizeKb : Int64
  heapRssKb : Int64
  heapPdKb : Int64
  rssKb : Int64

/-- `heapmon_entry_t`; `cmd` is the whole buffer. -/
structure HeapmonEntry where
  pid : Int32
  cmd : Bytes
  heapSizeKb : Int64
  heapRssKb : Int64
  heapPrivateDirtyKb : Int64
  rssKb : Int64
  rssDeltaKb : Int64
  heapRssDeltaKb : Int64
  heapPdDeltaKb : Int64
  initialRssKb : Int64
  initialHeapRssKb : Int64

/-- `heapmon_priv_t`. -/
structure HeapmonPriv where
  targets : List Int32
  current : List HeapData
  previous : List HeapData
  hasPrevious : Bool
  initial : List HeapData
  slots : List HeapmonEntry
  resultCount : Nat

/-- `results` up to its count. -/
def HeapmonPriv.results (priv : HeapmonPriv) : List HeapmonEntry :=
  priv.slots.take priv.resultCount

def heapmonInit : HeapmonPriv where
  targets := []
  current := []
  previous := []
  hasPrevious := false
  initial := []
  slots := List.replicate maxTargets {
    pid := 0
    cmd := List.replicate 128 0
    heapSizeKb := 0
    heapRssKb := 0
    heapPrivateDirtyKb := 0
    rssKb := 0
    rssDeltaKb := 0
    heapRssDeltaKb := 0
    heapPdDeltaKb := 0
    initialRssKb := 0
    initialHeapRssKb := 0 }
  resultCount := 0

/-! ## Collecting -/

/-- The locals of `parse_heap_smaps`. -/
structure SmapsSums where
  inHeap : Bool
  sizeKb : Int64
  rssKb : Int64
  pdKb : Int64

/-- Is this the first byte of an address? -/
def startsMapping (c : UInt8) : Bool := (0x30 ≤ c && c ≤ 0x39) || (0x61 ≤ c && c ≤ 0x66)

/-- The body of the loop; `line` is the rest of the text, from the start of a line. -/
def smapsLine (s : SmapsSums) (line : Bytes) : SmapsSums :=
  let s :=
    if startsMapping (line.headD 0) then
      { s with inHeap := (strstr line (CStr.lit "[heap]").bytes).isSome }
    else s
  if s.inHeap then
    if (CStr.lit "Size:").bytes <+: line then
      { s with sizeKb := s.sizeKb + strtoll (line.drop 5) }
    else if (CStr.lit "Rss:").bytes <+: line then
      { s with rssKb := s.rssKb + strtoll (line.drop 4) }
    else if (CStr.lit "Private_Dirty:").bytes <+: line then
      { s with pdKb := s.pdKb + strtoll (line.drop 14) }
    else s
  else s

/-- `parse_heap_smaps`, with the array `buf`; `none` for -1. -/
def parseHeapSmaps (smaps : ProcFile) (buf : Bytes) : Option SmapsSums :=
  match procReadFile smaps buf 65536 with
  | (_, none) => none
  | (buf, some _) =>
    some ((lineStarts (cstr buf).bytes).foldl smapsLine {
      inHeap := false, sizeKb := 0, rssKb := 0, pdKb := 0 })

/-- What a scan finds of one process; `stack` is what the array of `parse_heap_smaps` holds before.
With the time when it was started, which nobody reads here, the pid tells processes apart. -/
structure HeapSample where
  start : UInt64
  smaps : ProcFile
  cmdline : ProcFile
  comm : ProcFile
  stack : Bytes

def findPrevious (priv : HeapmonPriv) (pid : Int32) : Option HeapData :=
  priv.previous.find? fun prev => prev.pid = pid

/-- `find_or_create_initial`, with the values that it would put into a new entry. -/
def findOrCreateInitial (priv : HeapmonPriv) (data : HeapData) : HeapmonPriv × Option HeapData :=
  match priv.initial.find? fun init => init.pid = data.pid with
  | some init => (priv, some init)
  | none =>
    if priv.initial.length < maxTargets * 4 then
      ({ priv with initial := priv.initial ++ [data] }, some data)
    else (priv, none)

/-- The loop over the entries with the largest RSS: those that are not targets yet are added. -/
def addTarget (targets : List Int32) (e : Procmem.ProcmemEntry) : List Int32 :=
  if e.pid ∉ targets ∧ targets.length < maxTargets then targets ++ [e.pid] else targets

/-- The targets of a collection, those that grow most first. -/
def refreshTargets (procmem : Procmem.ProcmemPriv) : List Int32 :=
  let growers := Procmem.procmemGetTopGrowers procmem (maxTargets / 2)
  let topRss := Procmem.procmemGetTopRss procmem (maxTargets / 2)
  topRss.foldl addTarget (growers.map (·.pid))

/-- The command, read into the buffer of an entry. -/
def readCmd (p : HeapSample) (buf : Bytes) : Bytes :=
  match procReadCmdline p.cmdline buf 128 with
  | (buf, some _) => buf
  | (buf, none) => (procReadComm p.comm buf 128).1

/-- The body of the loop over the targets. The RSS of a current entry is never set. -/
def scanTarget (procmem : Procmem.ProcmemPriv) (sample : Int32 → HeapSample) (priv : HeapmonPriv)
    (pid : Int32) : HeapmonPriv :=
  let p := sample pid
  match parseHeapSmaps p.smaps p.stack with
  | none => priv
  | some s =>
    let cur : HeapData := {
      pid, heapSizeKb := s.sizeKb, heapRssKb := s.rssKb, heapPdKb := s.pdKb, rssKb := 0 }
    let prev := findPrevious priv pid
    let pe := Procmem.procmemGetPidInfo procmem pid
    let rssKb := (pe.map (·.rssKb)).getD 0
    let (priv, init) := findOrCreateInitial priv { cur with rssKb }
    let res : HeapmonEntry := {
      pid
      cmd := readCmd p ((priv.slots[priv.resultCount]?.map (·.cmd)).getD [])
      heapSizeKb := s.sizeKb
      heapRssKb := s.rssKb
      heapPrivateDirtyKb := s.pdKb
      rssKb
      rssDeltaKb := (pe.map (·.rssDeltaKb)).getD 0
      heapRssDeltaKb := (prev.map fun prev => s.rssKb - prev.heapRssKb).getD 0
      heapPdDeltaKb := (prev.map fun prev => s.pdKb - prev.heapPdKb).getD 0
      initialRssKb := (init.map (·.rssKb)).getD rssKb
      initialHeapRssKb := (init.map (·.heapRssKb)).getD s.rssKb }
    { priv with
      current := priv.current ++ [cur]
      slots := priv.slots.set priv.resultCount res
      resultCount := priv.resultCount + 1 }

/-- The growth by which the results are sorted. -/
def HeapmonEntry.change (e : HeapmonEntry) : Int64 := e.rssKb - e.initialRssKb

/-- The sort at the end of `heapmon_collect`, on the entries up to `result_count`. -/
def sortResults (results : List HeapmonEntry) : List HeapmonEntry :=
  ExchangeSort.loops (fun ej ei => ej.change > ei.change) results

/-- `heapmon_collect` up to the sort. -/
def heapmonScan (procmem : Procmem.ProcmemPriv) (sample : Int32 → HeapSample)
    (priv : HeapmonPriv) : HeapmonPriv :=
  let targets := refreshTargets procmem
  targets.foldl (scanTarget procmem sample) {
    priv with targets, previous := priv.current, current := [], resultCount := 0 }

def heapmonCollect (procmem : Procmem.ProcmemPriv) (sample : Int32 → HeapSample)
    (priv : HeapmonPriv) : HeapmonPriv :=
  let priv := heapmonScan procmem sample priv
  let results := ExchangeSort.sort (fun ej ei => ej.change > ei.change) priv.results
  { priv with
    targets := []
    slots := results ++ priv.slots.drop priv.resultCount
    hasPrevious := true }

/-! ## Reading the results -/

/-- By heap RSS, and then by RSS. -/
def compareConsumers (a b : HeapmonEntry) : Int :=
  if b.heapRssKb > a.heapRssKb then 1
  else if b.heapRssKb < a.heapRssKb then -1
  else if b.rssKb > a.rssKb then 1
  else if b.rssKb < a.rssKb then -1
  else 0

/-- What `snprintf` leaves in a buffer of 128 bytes, up to its NUL. -/
def printCmd (s : CStr) : Bytes := (s.cut 127).bytes ++ [0]

/-- The body of the loop of `heapmon_get_top_consumers`. The two initial values are never set
there, and never read afterwards. -/
def consumer (procmem : Procmem.ProcmemPriv) (priv : HeapmonPriv) (cur : HeapData) :
    HeapmonEntry :=
  let pe := Procmem.procmemGetPidInfo procmem cur.pid
  let prev := priv.previous.find? fun prev => prev.pid = cur.pid
  { pid := cur.pid
    cmd := printCmd ((pe.map (·.cmd)).getD (.lit "(unknown)"))
    rssKb := (pe.map (·.rssKb)).getD cur.heapRssKb
    heapSizeKb := cur.heapSizeKb
    heapRssKb := cur.heapRssKb
    heapPrivateDirtyKb := cur.heapPdKb
    heapRssDeltaKb := (prev.map fun prev => cur.heapRssKb - prev.heapRssKb).getD 0
    heapPdDeltaKb := (prev.map fun prev => cur.heapPdKb - prev.heapPdKb).getD 0
    rssDeltaKb := if prev.isSome then (pe.map (·.rssDeltaKb)).getD 0 else 0
    initialRssKb := 0
    initialHeapRssKb := 0 }

def heapmonGetTopConsumers (qsort : Qsort) (procmem : Procmem.ProcmemPriv) (priv : HeapmonPriv)
    (maxEntries : Nat) : List HeapmonEntry :=
  (qsort.sort compareConsumers (priv.current.map (consumer procmem priv))).take maxEntries

def heapmonGetEntries (priv : HeapmonPriv) (maxEntries : Nat) : List HeapmonEntry :=
  priv.results.take maxEntries

section

variable {δ : Type}

def entryCalls (e : HeapmonEntry) : List (JsonCall δ) :=
  objectCalls [[
    .kvInt (.lit "pid") e.pid.toInt64,
    .kvString (.lit "cmd") (some (cstr e.cmd)),
    .kvInt (.lit "rss_kb") e.rssKb,
    .kvInt (.lit "rss_delta_kb") e.rssDeltaKb,
    .kvInt (.lit "initial_rss_kb") e.initialRssKb,
    .kvInt (.lit "heap_size_kb") e.heapSizeKb,
    .kvInt (.lit "heap_rss_kb") e.heapRssKb,
    .kvInt (.lit "initial_heap_rss_kb") e.initialHeapRssKb,
    .kvInt (.lit "heap_pd_kb") e.heapPrivateDirtyKb,
    .kvInt (.lit "heap_rss_delta_kb") e.heapRssDeltaKb,
    .kvInt (.lit "heap_pd_delta_kb") e.heapPdDeltaKb]]

def heapmonSnapshot (priv : HeapmonPriv) : List (JsonCall δ) :=
  objectCalls [.key (.lit "heap_entries") :: arrayCalls priv.results entryCalls]

end

end Heapmon

end Qmem
