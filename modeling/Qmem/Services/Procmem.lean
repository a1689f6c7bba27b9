import Qmem.Builder
import Qmem.Lib.PoolTable
import Qmem.Lib.Qsort
import Qmem.ProcUtils

/-!
# Per-process memory (`services/procmem.c`)

Each scan refills the pool from its first entry while the previous scan's hash table still points
into it; a process's growth is the difference to the entry that table leads to.
-/

namespace Qmem

open CLib PoolTable

namespace Procmem

def maxProcs : Nat := 4096
def topN : Nat := 12
def hashSize : Nat := 8192

/-- `proc_entry_t`, without the link. -/
structure ProcEntry where
  pid : Int32
  rssKb : Int64
  dataKb : Int64
  cmd : Bytes

/-- `procmem_entry_t`. -/
structure ProcmemEntry where
  pid : Int32
  cmd : CStr
  rssKb : Int64
  dataKb : Int64
  rssDeltaKb : Int64
  dataDeltaKb : Int64

/-- `procmem_priv_t`: `tables` are `current`, `previous`, `pool` and `pool_idx`, and each list of
results is the array up to its count. -/
structure ProcmemPriv where
  tables : Tables ProcEntry
  hasPrevious : Bool
  growers : List ProcmemEntry
  shrinkers : List ProcmemEntry
  topRss : List ProcmemEntry

def hashPid (pid : Int32) : Nat := pid.toUInt32.toNat % hashSize

/-- `alloc_entry`: the index of the entry it hands out. -/
def allocEntry (priv : ProcmemPriv) : Option Nat :=
  if priv.tables.poolIdx ≥ maxProcs * 2 then none else some priv.tables.poolIdx

def findInHash (priv : ProcmemPriv) (hash : Heads) (pid : Int32) : Option ProcEntry :=
  (findFrom ProcEntry.pid priv.tables.pool pid (maxProcs * 2) (hash (hashPid pid))).map
    fun i => (priv.tables.pool i).val

def procmemInit : ProcmemPriv where
  tables := Tables.init { pid := 0, rssKb := 0, dataKb := 0, cmd := List.replicate 128 0 }
  hasPrevious := false
  growers := []
  shrinkers := []
  topRss := []

/-! ## Collecting -/

/-- What a scan reads of one process: `proc_read_status_kb` of its two fields, and the files its
name comes from. -/
structure ProcSample where
  pid : Int32
  vmRss : Int64
  vmData : Int64
  cmdline : ProcFile
  comm : ProcFile

/-- `collect_ctx_t`; `change_count` is the length of `changes`. -/
structure CollectCtx where
  priv : ProcmemPriv
  changes : List ProcmemEntry
  maxChanges : Nat

/-- The command, read into the buffer of a pool entry. -/
def readCmd (p : ProcSample) (buf : Bytes) : Bytes :=
  match procReadCmdline p.cmdline buf 128 with
  | (buf, some _) => buf
  | (buf, none) => (procReadComm p.comm buf 128).1

/-- The growth of a stored entry, as `collect_callback` and `procmem_get_pid_info` compute it. -/
def deltas (priv : ProcmemPriv) (e : ProcEntry) : Int64 × Int64 :=
  if priv.hasPrevious then
    match findInHash priv priv.tables.previous e.pid with
    | some prev => (e.rssKb - prev.rssKb, e.dataKb - prev.dataKb)
    | none => (0, 0)
  else (0, 0)

/-- A stored entry as a result. -/
def result (priv : ProcmemPriv) (e : ProcEntry) : ProcmemEntry where
  pid := e.pid
  cmd := (cstr e.cmd).cut 127
  rssKb := e.rssKb
  dataKb := e.dataKb
  rssDeltaKb := (deltas priv e).1
  dataDeltaKb := (deltas priv e).2

/-- The entry filled in for a process, in a pool slot whose `cmd` was `buf`. -/
def ProcSample.entry (p : ProcSample) (buf : Bytes) : ProcEntry where
  pid := p.pid
  rssKb := p.vmRss
  dataKb := p.vmData
  cmd := readCmd p buf

/-- The entry is linked into the current table once it is filled in. -/
def insertHash (priv : ProcmemPriv) (e : ProcEntry) : ProcmemPriv :=
  { priv with tables := priv.tables.add ProcEntry.pid hashPid e }

def collectCallback (ctx : CollectCtx) (p : ProcSample) : CollectCtx × Bool :=
  if p.vmRss < 0 ∨ p.vmData < 0 then (ctx, true)
  else
    match allocEntry ctx.priv with
    | none => (ctx, false)
    | some i =>
      let entry := p.entry (ctx.priv.tables.pool i).val.cmd
      let priv := insertHash ctx.priv entry
      let changes :=
        if ctx.changes.length < ctx.maxChanges then ctx.changes ++ [result priv entry]
        else ctx.changes
      ({ ctx with priv, changes }, true)

def compareRssGrower : ProcmemEntry → ProcmemEntry → Int :=
  compareDescending fun e => e.rssDeltaKb

def compareRssShrinker : ProcmemEntry → ProcmemEntry → Int :=
  compareAscending fun e => e.rssDeltaKb

def compareRssAbs : ProcmemEntry → ProcmemEntry → Int :=
  compareDescending fun e => e.rssKb

/-- The first half of `procmem_collect`: the swap and the scan, with the local `all_changes`. -/
def procmemScan (priv : ProcmemPriv) (dir : Option (List ProcSample)) : CollectCtx :=
  let ctx := {
    priv := { priv with tables := priv.tables.swap }, changes := [], maxChanges := maxProcs }
  (procIteratePids collectCallback dir ctx).1

def procmemCollect (qsort : Qsort) (priv : ProcmemPriv) (dir : Option (List ProcSample)) :
    ProcmemPriv :=
  let ctx := procmemScan priv dir
  let allChanges := qsort.sort compareRssGrower ctx.changes
  let growers := (allChanges.filter fun e => e.rssDeltaKb > 0).take topN
  let allChanges := qsort.sort compareRssShrinker allChanges
  let shrinkers := (allChanges.filter fun e => e.rssDeltaKb < 0).take topN
  let allChanges := qsort.sort compareRssAbs allChanges
  { ctx.priv with growers, shrinkers, topRss := allChanges.take topN, hasPrevious := true }

/-! ## Reading the results -/

def procmemGetTopGrowers (priv : ProcmemPriv) (maxEntries : Nat) : List ProcmemEntry :=
  priv.growers.take maxEntries

def procmemGetTopShrinkers (priv : ProcmemPriv) (maxEntries : Nat) : List ProcmemEntry :=
  priv.shrinkers.take maxEntries

def procmemGetTopRss (priv : ProcmemPriv) (maxEntries : Nat) : List ProcmemEntry :=
  priv.topRss.take maxEntries

/-- `procmem_get_pid_info`; `none` for -1. -/
def procmemGetPidInfo (priv : ProcmemPriv) (pid : Int32) : Option ProcmemEntry :=
  (findInHash priv priv.tables.current pid).map (result priv)

section

variable {δ : Type}

/-- The members of a process, but for the last. -/
def entryCalls (e : ProcmemEntry) : List (JsonCall δ) := [
  .kvInt (.lit "pid") e.pid.toInt64,
  .kvString (.lit "cmd") (some e.cmd),
  .kvInt (.lit "rss_kb") e.rssKb,
  .kvInt (.lit "data_kb") e.dataKb,
  .kvInt (.lit "rss_delta_kb") e.rssDeltaKb]

def growerCalls (e : ProcmemEntry) : List (JsonCall δ) :=
  objectCalls [entryCalls e, [.kvInt (.lit "data_delta_kb") e.dataDeltaKb]]

def topRssCalls (e : ProcmemEntry) : List (JsonCall δ) := objectCalls [entryCalls e]

def procmemSnapshot (priv : ProcmemPriv) : List (JsonCall δ) :=
  objectCalls [
    .key (.lit "top_growers") :: arrayCalls priv.growers growerCalls,
    .key (.lit "top_shrinkers") :: arrayCalls priv.shrinkers growerCalls,
    .key (.lit "top_rss") :: arrayCalls priv.topRss topRssCalls]

end

end Procmem

end Qmem
