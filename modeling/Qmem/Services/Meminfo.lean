import Qmem.Builder
import Qmem.Lib.Lines
import Qmem.ProcUtils
import Mathlib.Algebra.Order.Field.Rat

/-!
# System memory (`services/meminfo.c`)

The counters of `/proc/meminfo`, now and at the last sample.
-/

namespace Qmem

open CLib

namespace Meminfo

/-- `meminfo_data_t`. -/
structure MeminfoData where
  memTotalKb : Int64
  memAvailableKb : Int64
  memFreeKb : Int64
  buffersKb : Int64
  cachedKb : Int64
  slabKb : Int64
  sreclaimableKb : Int64
  sunreclaimKb : Int64
  activeKb : Int64
  inactiveKb : Int64
  anonPagesKb : Int64
  vmallocUsedKb : Int64
  pageTablesKb : Int64
  kernelStackKb : Int64
  dirtyKb : Int64
  mappedKb : Int64
  usagePercent : ℚ

/-- `meminfo_priv_t`. -/
structure MeminfoPriv where
  current : MeminfoData
  previous : MeminfoData
  hasPrevious : Bool

/-- `meminfo_status_t`. -/
structure MeminfoStatus where
  totalKb : Int64
  freeKb : Int64
  availableKb : Int64
  buffersKb : Int64
  cachedKb : Int64

/-- `memset(data, 0, sizeof(*data))`. -/
def zeroData : MeminfoData where
  memTotalKb := 0
  memAvailableKb := 0
  memFreeKb := 0
  buffersKb := 0
  cachedKb := 0
  slabKb := 0
  sreclaimableKb := 0
  sunreclaimKb := 0
  activeKb := 0
  inactiveKb := 0
  anonPagesKb := 0
  vmallocUsedKb := 0
  pageTablesKb := 0
  kernelStackKb := 0
  dirtyKb := 0
  mappedKb := 0
  usagePercent := 0

def meminfoInit : MeminfoPriv where
  current := zeroData
  previous := zeroData
  hasPrevious := false

/-! ## Collecting -/

/-- The chain of comparisons in `parse_meminfo`. -/
def MeminfoData.set (data : MeminfoData) (key : Bytes) (value : Int64) : MeminfoData :=
  if key = (CStr.lit "MemTotal").bytes then { data with memTotalKb := value }
  else if key = (CStr.lit "MemAvailable").bytes then { data with memAvailableKb := value }
  else if key = (CStr.lit "MemFree").bytes then { data with memFreeKb := value }
  else if key = (CStr.lit "Buffers").bytes then { data with buffersKb := value }
  else if key = (CStr.lit "Cached").bytes then { data with cachedKb := value }
  else if key = (CStr.lit "Slab").bytes then { data with slabKb := value }
  else if key = (CStr.lit "SReclaimable").bytes then { data with sreclaimableKb := value }
  else if key = (CStr.lit "SUnreclaim").bytes then { data with sunreclaimKb := value }
  else if key = (CStr.lit "Active").bytes then { data with activeKb := value }
  else if key = (CStr.lit "Inactive").bytes then { data with inactiveKb := value }
  else if key = (CStr.lit "AnonPages").bytes then { data with anonPagesKb := value }
  else if key = (CStr.lit "VmallocUsed").bytes then { data with vmallocUsedKb := value }
  else if key = (CStr.lit "PageTables").bytes then { data with pageTablesKb := value }
  else if key = (CStr.lit "KernelStack").bytes then { data with kernelStackKb := value }
  else if key = (CStr.lit "Dirty").bytes then { data with dirtyKb := value }
  else if key = (CStr.lit "Mapped").bytes then { data with mappedKb := value }
  else data

/-- The body of the loop of `parse_meminfo`; `line` is the rest of the text. -/
def meminfoLine (data : MeminfoData) (line : Bytes) : MeminfoData :=
  match procParseKvKb line 64 with
  | none => data
  | some (key, value) => if value ≥ 0 then data.set key value else data

def MeminfoData.withUsage (data : MeminfoData) : MeminfoData :=
  if data.memTotalKb > 0 then
    let used := data.memTotalKb - data.memAvailableKb
    { data with usagePercent := used.toInt * 100 / data.memTotalKb.toInt }
  else data

/-- `parse_meminfo`, with the array `buf`; `none` for -1. -/
def parseMeminfo (file : ProcFile) (buf : Bytes) : Option MeminfoData :=
  match procReadFile file buf 8192 with
  | (_, none) => none
  | (buf, some _) => some ((lineStarts (cstr buf).bytes).foldl meminfoLine zeroData).withUsage

/-- `meminfo_collect`; false is for -1. -/
def meminfoCollect (file : ProcFile) (buf : Bytes) (priv : MeminfoPriv) : MeminfoPriv × Bool :=
  let priv := { priv with previous := priv.current, hasPrevious := true }
  match parseMeminfo file buf with
  | none => (priv, false)
  | some current => ({ priv with current }, true)

/-! ## Reading the results -/

def writeDelta (name : CStr) (current previous : Int64) (hasPrev : Bool) : List (JsonCall ℚ) :=
  .key name :: objectCalls [
    [.kvInt (.lit "value") current],
    if hasPrev then [.kvInt (.lit "delta") (current - previous)] else []]

def meminfoSnapshot (priv : MeminfoPriv) : List (JsonCall ℚ) :=
  let cur := priv.current
  let prev := priv.previous
  let hasPrev := priv.hasPrevious
  objectCalls [
    [.kvDouble (.lit "usage_percent") cur.usagePercent],
    .key (.lit "memory") :: objectCalls [
      writeDelta (.lit "total_kb") cur.memTotalKb prev.memTotalKb hasPrev,
      writeDelta (.lit "available_kb") cur.memAvailableKb prev.memAvailableKb hasPrev,
      writeDelta (.lit "free_kb") cur.memFreeKb prev.memFreeKb hasPrev,
      writeDelta (.lit "buffers_kb") cur.buffersKb prev.buffersKb hasPrev,
      writeDelta (.lit "cached_kb") cur.cachedKb prev.cachedKb hasPrev],
    .key (.lit "kernel") :: objectCalls [
      writeDelta (.lit "slab_kb") cur.slabKb prev.slabKb hasPrev,
      writeDelta (.lit "sreclaimable_kb") cur.sreclaimableKb prev.sreclaimableKb hasPrev,
      writeDelta (.lit "sunreclaim_kb") cur.sunreclaimKb prev.sunreclaimKb hasPrev,
      writeDelta (.lit "vmalloc_used_kb") cur.vmallocUsedKb prev.vmallocUsedKb hasPrev,
      writeDelta (.lit "page_tables_kb") cur.pageTablesKb prev.pageTablesKb hasPrev,
      writeDelta (.lit "kernel_stack_kb") cur.kernelStackKb prev.kernelStackKb hasPrev],
    .key (.lit "activity") :: objectCalls [
      writeDelta (.lit "active_kb") cur.activeKb prev.activeKb hasPrev,
      writeDelta (.lit "inactive_kb") cur.inactiveKb prev.inactiveKb hasPrev,
      writeDelta (.lit "anon_pages_kb") cur.anonPagesKb prev.anonPagesKb hasPrev,
      writeDelta (.lit "dirty_kb") cur.dirtyKb prev.dirtyKb hasPrev,
      writeDelta (.lit "mapped_kb") cur.mappedKb prev.mappedKb hasPrev]]

/-- `meminfo_get_status`, for a pointer that is not NULL. -/
def meminfoGetStatus (priv : MeminfoPriv) : MeminfoStatus where
  totalKb := priv.current.memTotalKb
  freeKb := priv.current.memFreeKb
  availableKb := priv.current.memAvailableKb
  buffersKb := priv.current.buffersKb
  cachedKb := priv.current.cachedKb

end Meminfo

end Qmem
