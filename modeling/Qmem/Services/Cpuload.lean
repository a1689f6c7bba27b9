import Qmem.Builder
import Qmem.Lib.PoolTable
import Qmem.Lib.Qsort
import Qmem.ProcUtils

/-!
# CPU load (`services/cpuload.c`)

Percentages are `double`s in the source and exact rationals here. The counters are unsigned
longs, and so are their differences.
-/

namespace Qmem

open CLib PoolTable

namespace Cpuload

def maxProcs : Nat := 4096
def topN : Nat := 20
def hashSize : Nat := 8192

/-- `proc_cpu_t`, without the link. -/
structure ProcCpu where
  pid : Int32
  utime : UInt64
  stime : UInt64
  totalTime : UInt64
  cmd : CStr

/-- `cpu_counters_t`. -/
structure CpuCounters where
  user : UInt64
  nice : UInt64
  system : UInt64
  idle : UInt64
  iowait : UInt64
  irq : UInt64
  softirq : UInt64
  total : UInt64

/-- `cpuload_system_t`. -/
structure CpuloadSystem where
  userPercent : ℚ
  systemPercent : ℚ
  idlePercent : ℚ
  iowaitPercent : ℚ

/-- `cpuload_entry_t`, without `cpu_delta`, which nothing writes or reads. -/
structure CpuloadEntry where
  pid : Int32
  cmd : CStr
  cpuPercent : ℚ
  utime : UInt64
  stime : UInt64

/-- `cpuload_priv_t`: `tables` are `current`, `previous`, `pool` and `pool_idx`. -/
structure CpuloadPriv where
  currSys : CpuCounters
  prevSys : CpuCounters
  systemStats : CpuloadSystem
  tables : Tables ProcCpu
  hasPrevious : Bool
  topConsumers : List CpuloadEntry
  clockTicks : Int64

def hashPid (pid : Int32) : Nat := pid.toUInt32.toNat % hashSize

def allocEntry (priv : CpuloadPriv) : Option Nat :=
  if priv.tables.poolIdx ≥ maxProcs * 2 then none else some priv.tables.poolIdx

def findInHash (priv : CpuloadPriv) (hash : Heads) (pid : Int32) : Option ProcCpu :=
  (findFrom ProcCpu.pid priv.tables.pool pid (maxProcs * 2) (hash (hashPid pid))).map
    fun i => (priv.tables.pool i).val

def insertHash (priv : CpuloadPriv) (e : ProcCpu) : CpuloadPriv :=
  { priv with tables := priv.tables.add ProcCpu.pid hashPid e }

/-- `cpuload_init`, where `sysconf(_SC_CLK_TCK)` is `ticks`. -/
def cpuloadInit (ticks : Int64) : CpuloadPriv where
  currSys := ⟨0, 0, 0, 0, 0, 0, 0, 0⟩
  prevSys := ⟨0, 0, 0, 0, 0, 0, 0, 0⟩
  systemStats := ⟨0, 0, 0, 0⟩
  tables := Tables.init { pid := 0, utime := 0, stime := 0, totalTime := 0, cmd := CStr.lit "" }
  hasPrevious := false
  topConsumers := []
  clockTicks := if ticks ≤ 0 then 100 else ticks

/-! ## Collecting -/

/-- What `parse_pid_stat` reads of a process. -/
structure PidStat where
  utime : UInt64
  stime : UInt64
  cmd : CStr

/-- A directory under /proc; `stat` is `none` where `parse_pid_stat` returns -1. -/
structure CpuSample where
  pid : Int32
  stat : Option PidStat

/-- A sample: the numbers `sscanf` converts in the first line of /proc/stat (`none` if the file
cannot be read), and the processes (`none` if `opendir` fails). -/
structure Sample where
  sys : Option (List UInt64)
  dir : Option (List CpuSample)

/-- `parse_proc_stat`: the numbers that were converted are stored even when there are too few;
false for -1. -/
def parseProcStat (c : CpuCounters) : Option (List UInt64) → CpuCounters × Bool
  | none => (c, false)
  | some vs =>
    let c := { c with
      user := vs.getD 0 c.user
      nice := vs.getD 1 c.nice
      system := vs.getD 2 c.system
      idle := vs.getD 3 c.idle
      iowait := vs.getD 4 c.iowait
      irq := vs.getD 5 c.irq
      softirq := vs.getD 6 c.softirq }
    if vs.length < 7 then (c, false)
    else
      ({ c with total := c.user + c.nice + c.system + c.idle + c.iowait + c.irq + c.softirq },
        true)

/-- `100.0 * delta / total`. -/
def percent (delta total : UInt64) : ℚ := 100 * delta.toNat / total.toNat

/-- The state in the middle of a collection: `all_entries` up to `entry_count`. -/
structure Collecting where
  priv : CpuloadPriv
  allEntries : List CpuloadEntry

/-- The candidate an entry that has just been stored makes, if any. -/
def candidate (priv : CpuloadPriv) (totalDelta : UInt64) (e : ProcCpu) : Option CpuloadEntry :=
  if priv.hasPrevious ∧ totalDelta > 0 then
    (findInHash priv priv.tables.previous e.pid).bind fun prev =>
      let cpuPct := percent (e.totalTime - prev.totalTime) totalDelta
      if cpuPct > 1 / 100 then
        some { pid := e.pid, cmd := e.cmd, cpuPercent := cpuPct, utime := e.utime, stime := e.stime }
      else none
  else none

def PidStat.entry (st : PidStat) (pid : Int32) : ProcCpu where
  pid := pid
  utime := st.utime
  stime := st.stime
  totalTime := st.utime + st.stime
  cmd := st.cmd.cut 127

/-- The body of the loop over /proc, with the condition before it. -/
def scanProc (totalDelta : UInt64) (s : Collecting) (p : CpuSample) : Collecting × Bool :=
  if s.allEntries.length < maxProcs then
    match p.stat with
    | none => (s, true)
    | some st =>
      match allocEntry s.priv with
      | none => (s, false)
      | some _ =>
        let e := st.entry p.pid
        let priv := insertHash s.priv e
        (⟨priv, s.allEntries ++ (candidate priv totalDelta e).toList⟩, true)
  else (s, false)

def compareCpu : CpuloadEntry → CpuloadEntry → Int := compareDescending fun e => e.cpuPercent

/-- The part of `cpuload_collect` before the scan, with `total_delta`. -/
def systemSample (priv : CpuloadPriv) (sys : Option (List UInt64)) : CpuloadPriv × UInt64 :=
  let prev := priv.currSys
  let curr := (parseProcStat priv.currSys sys).1
  let totalDelta := curr.total - prev.total
  let systemStats :=
    if totalDelta > 0 ∧ priv.hasPrevious then {
      userPercent := percent (curr.user - prev.user) totalDelta
      systemPercent := percent (curr.system - prev.system) totalDelta
      idlePercent := percent (curr.idle - prev.idle) totalDelta
      iowaitPercent := percent (curr.iowait - prev.iowait) totalDelta : CpuloadSystem }
    else priv.systemStats
  ({ priv with prevSys := prev, currSys := curr, systemStats, tables := priv.tables.swap },
    totalDelta)

/-- The scan of `cpuload_collect`, with the local `all_entries`. -/
def cpuloadScan (priv : CpuloadPriv) (sys : Option (List UInt64)) (ps : List CpuSample) :
    Collecting :=
  let (priv, totalDelta) := systemSample priv sys
  (iteratePids (scanProc totalDelta) ps { priv, allEntries := [] } 0).1

/-- `cpuload_collect`; false for -1. -/
def cpuloadCollect (qsort : Qsort) (priv : CpuloadPriv) (sample : Sample) : CpuloadPriv × Bool :=
  match sample.dir with
  | none => ((systemSample priv sample.sys).1, false)
  | some ps =>
    let s := cpuloadScan priv sample.sys ps
    ({ s.priv with
      topConsumers := (qsort.sort compareCpu s.allEntries).take topN
      hasPrevious := true }, true)

/-! ## Reading the results -/

def cpuloadGetTop (priv : CpuloadPriv) (maxEntries : Nat) : List CpuloadEntry :=
  priv.topConsumers.take maxEntries

def consumerCalls (e : CpuloadEntry) : List (JsonCall ℚ) :=
  objectCalls [[
    .kvInt (.lit "pid") e.pid.toInt64,
    .kvString (.lit "cmd") (some e.cmd),
    .kvDouble (.lit "cpu_percent") e.cpuPercent,
    .kvUint (.lit "utime") e.utime,
    .kvUint (.lit "stime") e.stime]]

def cpuloadSnapshot (priv : CpuloadPriv) : List (JsonCall ℚ) :=
  objectCalls [
    .key (.lit "system") :: objectCalls [[
      .kvDouble (.lit "user_percent") priv.systemStats.userPercent,
      .kvDouble (.lit "system_percent") priv.systemStats.systemPercent,
      .kvDouble (.lit "idle_percent") priv.systemStats.idlePercent,
      .kvDouble (.lit "iowait_percent") priv.systemStats.iowaitPercent]],
    .key (.lit "top_consumers") :: arrayCalls priv.topConsumers consumerCalls]

end Cpuload

end Qmem
