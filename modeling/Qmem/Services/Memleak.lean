import Qmem.Services.Heapmon
import Qmem.Services.Meminfo
import Qmem.Services.Slabinfo

/-!
# Leak detection (`services/memleak.c`)

A service with nothing of its own: it reports from the procmem, slabinfo, heapmon and meminfo
that are linked into its library.
-/

namespace Qmem

open CLib Procmem Slabinfo Heapmon Meminfo

namespace Memleak

/-- The state of the services in the library. -/
structure MemleakPriv where
  procmem : ProcmemPriv
  slabinfo : SlabinfoPriv
  heapmon : HeapmonPriv
  meminfo : MeminfoPriv

def memleakInit : MemleakPriv where
  procmem := procmemInit
  slabinfo := slabinfoInit
  heapmon := heapmonInit
  meminfo := meminfoInit

/-- What the services read in one collection, and what is in their arrays before. -/
structure MemleakFiles where
  dir : Option (List ProcSample)
  slabs : ProcFile
  slabsBuf : Bytes
  heaps : Int32 → HeapSample
  memory : ProcFile
  memoryBuf : Bytes

/-- `memleak_collect`. Nobody looks at whether a service fails. -/
def memleakCollect (qsort : Qsort) (priv : MemleakPriv) (files : MemleakFiles) : MemleakPriv :=
  let procmem := procmemCollect qsort priv.procmem files.dir
  let slabinfo := (slabinfoCollect qsort priv.slabinfo files.slabs files.slabsBuf).1
  let heapmon := heapmonCollect procmem files.heaps priv.heapmon
  let meminfo := (meminfoCollect files.memory files.memoryBuf priv.meminfo).1
  { procmem, slabinfo, heapmon, meminfo }

section

variable {δ : Type}

def kernelLeakCalls (e : SlabEntry) : List (JsonCall δ) :=
  objectCalls [[
    .kvString (.lit "cache") (some e.name),
    .kvInt (.lit "delta_bytes") e.deltaBytes,
    .kvInt (.lit "total_bytes") e.sizeBytes]]

def userLeakCalls (e : HeapmonEntry) : List (JsonCall δ) :=
  objectCalls [[
    .kvInt (.lit "pid") e.pid.toInt64,
    .kvString (.lit "cmd") (some (cstr e.cmd)),
    .kvInt (.lit "rss_kb") e.rssKb,
    .kvInt (.lit "rss_delta_kb") e.rssDeltaKb,
    .kvInt (.lit "heap_rss_kb") e.heapRssKb,
    .kvInt (.lit "heap_delta_kb") e.heapRssDeltaKb,
    .kvInt (.lit "heap_pd_kb") e.heapPrivateDirtyKb,
    .kvInt (.lit "heap_pd_delta_kb") e.heapPdDeltaKb,
    .kvInt (.lit "heap_size_kb") e.heapSizeKb]]

def processUsageCalls (e : HeapmonEntry) : List (JsonCall δ) :=
  objectCalls [[
    .kvInt (.lit "pid") e.pid.toInt64,
    .kvString (.lit "cmd") (some (cstr e.cmd)),
    .kvInt (.lit "rss_kb") e.rssKb,
    .kvInt (.lit "rss_delta_kb") e.rssDeltaKb,
    .kvInt (.lit "heap_rss_kb") e.heapRssKb,
    .kvInt (.lit "heap_delta_kb") e.heapRssDeltaKb,
    .kvInt (.lit "heap_pd_kb") e.heapPrivateDirtyKb,
    .kvInt (.lit "heap_size_kb") e.heapSizeKb]]

def kernelUsageCalls (e : SlabEntry) : List (JsonCall δ) :=
  objectCalls [[
    .kvString (.lit "cache") (some e.name),
    .kvInt (.lit "total_bytes") e.sizeBytes,
    .kvInt (.lit "delta_bytes") e.deltaBytes,
    .kvInt (.lit "active_objs") e.numObjs.toInt64,
    .kvInt (.lit "delta_objs") e.deltaObjs.toInt64]]

def memleakSnapshot (qsort : Qsort) (priv : MemleakPriv) : List (JsonCall δ) :=
  let memStat := meminfoGetStatus priv.meminfo
  objectCalls [
    .key (.lit "memory_summary") :: objectCalls [[
      .kvInt (.lit "total_kb") memStat.totalKb,
      .kvInt (.lit "free_kb") memStat.freeKb,
      .kvInt (.lit "available_kb") memStat.availableKb,
      .kvInt (.lit "cached_kb") memStat.cachedKb]],
    .key (.lit "kernel_leaks") ::
      arrayCalls (slabinfoGetTopGrowers priv.slabinfo 10) kernelLeakCalls,
    .key (.lit "user_leaks") :: arrayCalls (heapmonGetEntries priv.heapmon 10) userLeakCalls,
    .key (.lit "process_usage") ::
      arrayCalls (heapmonGetTopConsumers qsort priv.procmem priv.heapmon 10) processUsageCalls,
    .key (.lit "kernel_usage") ::
      arrayCalls (slabinfoGetTopConsumers qsort priv.slabinfo 10) kernelUsageCalls]

end

end Memleak

end Qmem
