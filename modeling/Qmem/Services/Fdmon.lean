import Qmem.Builder
import Qmem.Lib.Qsort
import Qmem.ProcUtils

/-!
# File descriptors (`services/fdmon.c`)

How many descriptors each process has open, and how many more than when its pid was first seen.
The first counts are kept in a table of 200 entries, and none is ever removed.
-/

namespace Qmem

open CLib

namespace Fdmon

def maxProcs : Nat := 100
def topCount : Nat := 25

/-- `fd_data_t`. -/
structure FdData where
  pid : Int32
  fdCount : Int32

/-- `fdmon_fd_types_t`. -/
structure FdTypes where
  files : Int32
  sockets : Int32
  pipes : Int32
  eventfds : Int32
  other : Int32

/-- `fdmon_entry_t`; `cmd` is the whole buffer. -/
structure FdmonEntry where
  pid : Int32
  cmd : Bytes
  fdCount : Int32
  initialFdCount : Int32
  fdDelta : Int32
  fdChange : Int32
  types : FdTypes

/-- `fdmon_summary_t`. -/
structure FdmonSummary where
  totalFds : Int32
  totalDelta : Int32
  procCount : Int32
  potentialLeaks : Int32

/-- `fdmon_priv_t`; each array is the list of its entries up to its count. -/
structure FdmonPriv where
  current : List FdData
  previous : List FdData
  hasPrevious : Bool
  initial : List FdData
  topConsumers : List FdmonEntry
  leakers : List FdmonEntry
  summary : FdmonSummary

def fdmonInit : FdmonPriv where
  current := []
  previous := []
  hasPrevious := false
  initial := []
  topConsumers := []
  leakers := []
  summary := { totalFds := 0, totalDelta := 0, procCount := 0, potentialLeaks := 0 }

/-! ## Collecting -/

/-- What a scan finds of one process: where each of its descriptors links to (nothing if `readlink`
fails), and the files with its name; `fds` is `none` if its directory cannot be opened. With the
time when it was started, which nobody reads here, the pid tells processes apart. -/
structure FdSample where
  pid : Int32
  start : UInt64
  fds : Option (List Bytes)
  cmdline : ProcFile
  comm : ProcFile
  fds_lt : ∀ links ∈ fds, links.length < 2 ^ 31

/-- A pass over /proc, where a pid is listed once. `stack` is what stands in the `cmd` of the local
entries before. -/
structure FdScan where
  procs : List FdSample
  stack : Nat → Bytes
  distinct : (procs.map FdSample.pid).Nodup

/-- The kind of one descriptor is counted, if its link could be read. -/
def classify (types : FdTypes) (target : Bytes) : FdTypes :=
  if target = [] then types
  else if (CStr.lit "socket:").bytes <+: target then { types with sockets := types.sockets + 1 }
  else if (CStr.lit "pipe:").bytes <+: target then { types with pipes := types.pipes + 1 }
  else if (CStr.lit "anon_inode:").bytes <+: target then
    { types with eventfds := types.eventfds + 1 }
  else if target.head? = some 0x2f then { types with files := types.files + 1 }
  else { types with other := types.other + 1 }

/-- `count_fds`; `none` for -1. -/
def countFds (p : FdSample) : Option (Int32 × FdTypes) :=
  p.fds.map fun links =>
    (Int32.ofNat links.length, links.foldl classify {
      files := 0, sockets := 0, pipes := 0, eventfds := 0, other := 0 })

def findPrevious (priv : FdmonPriv) (pid : Int32) : Option FdData :=
  priv.previous.find? fun prev => prev.pid = pid

def findOrCreateInitial (priv : FdmonPriv) (pid fdCount : Int32) : FdmonPriv × Option FdData :=
  match priv.initial.find? fun init => init.pid = pid with
  | some init => (priv, some init)
  | none =>
    if priv.initial.length < maxProcs * 2 then
      let init : FdData := { pid, fdCount }
      ({ priv with initial := priv.initial ++ [init] }, some init)
    else (priv, none)

def cmpFdCountDesc (a b : FdmonEntry) : Int := (b.fdCount - a.fdCount).toInt

def cmpFdChangeDesc (a b : FdmonEntry) : Int := (b.fdChange - a.fdChange).toInt

/-- The command, read into the buffer of a local entry. -/
def readCmd (p : FdSample) (buf : Bytes) : Bytes :=
  match procReadCmdline p.cmdline buf 128 with
  | (buf, some _) => buf
  | (buf, none) => (procReadComm p.comm buf 128).1

/-- The state in the middle of a collection, with the local `all_procs`. -/
structure Collecting where
  priv : FdmonPriv
  allProcs : List FdmonEntry

def FdmonSummary.count (summary : FdmonSummary) (e : FdmonEntry) : FdmonSummary :=
  { summary with
    totalFds := summary.totalFds + e.fdCount
    procCount := summary.procCount + 1
    potentialLeaks :=
      if e.fdChange > 0 then summary.potentialLeaks + 1 else summary.potentialLeaks }

/-- The body of the loop over /proc. -/
def scanProc (stack : Nat → Bytes) (s : Collecting) (p : FdSample) : Collecting :=
  match countFds p with
  | none => s
  | some (fdCount, types) =>
    let priv :=
      if s.priv.current.length < maxProcs then
        { s.priv with current := s.priv.current ++ [{ pid := p.pid, fdCount }] }
      else s.priv
    let prev := findPrevious priv p.pid
    let (priv, init) := findOrCreateInitial priv p.pid fdCount
    let initialFdCount := (init.map (·.fdCount)).getD fdCount
    let e : FdmonEntry := {
      pid := p.pid
      cmd := readCmd p (stack s.allProcs.length)
      fdCount
      initialFdCount
      fdDelta := (prev.map fun prev => fdCount - prev.fdCount).getD 0
      fdChange := fdCount - initialFdCount
      types }
    { priv := { priv with summary := priv.summary.count e }, allProcs := s.allProcs ++ [e] }

/-- The loop: it ends when `all_procs` is full. -/
def scanLoop (stack : Nat → Bytes) : List FdSample → Collecting → Collecting
  | [], s => s
  | p :: ps, s => if s.allProcs.length < maxProcs then scanLoop stack ps (scanProc stack s p) else s

/-- The first lines of `fdmon_collect`. -/
def resetCurrent (priv : FdmonPriv) : FdmonPriv :=
  { priv with
    previous := priv.current
    current := []
    topConsumers := []
    leakers := []
    summary := { totalFds := 0, totalDelta := 0, procCount := 0, potentialLeaks := 0 } }

/-- `fdmon_collect` up to `closedir`. -/
def fdmonScan (priv : FdmonPriv) (scan : FdScan) : Collecting :=
  scanLoop scan.stack scan.procs { priv := resetCurrent priv, allProcs := [] }

/-- `fdmon_collect`; there is no scan if `opendir` fails, and false is for -1. -/
def fdmonCollect (qsort : Qsort) (priv : FdmonPriv) (scan : Option FdScan) : FdmonPriv × Bool :=
  match scan with
  | none => (resetCurrent priv, false)
  | some scan =>
    let s := fdmonScan priv scan
    let allProcs := qsort.sort cmpFdCountDesc s.allProcs
    let topConsumers := allProcs.take topCount
    let allProcs := qsort.sort cmpFdChangeDesc allProcs
    let leakers := (allProcs.filter fun e => e.fdChange > 0).take topCount
    ({ s.priv with topConsumers, leakers, hasPrevious := true }, true)

/-! ## Reading the results -/

section

variable {δ : Type}

/-- The members that consumers and leakers share. -/
def entryCalls (e : FdmonEntry) : List (JsonCall δ) := [
  .kvInt (.lit "pid") e.pid.toInt64,
  .kvString (.lit "cmd") (some (cstr e.cmd)),
  .kvInt (.lit "fd_count") e.fdCount.toInt64,
  .kvInt (.lit "initial_fd_count") e.initialFdCount.toInt64,
  .kvInt (.lit "fd_change") e.fdChange.toInt64]

def consumerCalls (e : FdmonEntry) : List (JsonCall δ) :=
  objectCalls [
    entryCalls e,
    [.kvInt (.lit "fd_delta") e.fdDelta.toInt64,
      .kvInt (.lit "files") e.types.files.toInt64,
      .kvInt (.lit "sockets") e.types.sockets.toInt64,
      .kvInt (.lit "pipes") e.types.pipes.toInt64,
      .kvInt (.lit "eventfds") e.types.eventfds.toInt64,
      .kvInt (.lit "other") e.types.other.toInt64]]

def leakerCalls (e : FdmonEntry) : List (JsonCall δ) := objectCalls [entryCalls e]

def fdmonSnapshot (priv : FdmonPriv) : List (JsonCall δ) :=
  objectCalls [
    .key (.lit "summary") :: objectCalls [[
      .kvInt (.lit "total_fds") priv.summary.totalFds.toInt64,
      .kvInt (.lit "proc_count") priv.summary.procCount.toInt64,
      .kvInt (.lit "potential_leaks") priv.summary.potentialLeaks.toInt64]],
    .key (.lit "top_consumers") :: arrayCalls priv.topConsumers consumerCalls,
    .key (.lit "leakers") :: arrayCalls priv.leakers leakerCalls]

end

end Fdmon

end Qmem
