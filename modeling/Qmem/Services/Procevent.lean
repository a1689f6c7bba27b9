import Qmem.Builder
import Qmem.Lib.PoolTable
import Qmem.ProcUtils

/-!
# Process events (`services/procevent.c`)

A scan of /proc is compared with the scan before it: a pid that the older table does not have has
been forked, and one that the newer table does not have has exited. Both tables are chained
through the same pool.
-/

namespace Qmem

open CLib PoolTable

namespace Procevent

def maxEvents : Nat := 100
def hashSize : Nat := 4096
def poolSize : Nat := 8192

/-- `pid_entry_t`, without the link. -/
structure PidEntry where
  pid : Int32
  cmd : CStr

/-- `proc_event_type_t`; `none` is the 0 of an event that was never written. -/
inductive ProcEventType where
  | none
  | fork
  | exec
  | exit
deriving DecidableEq

/-- `proc_event_t`. -/
structure ProcEvent where
  type : ProcEventType
  pid : Int32
  parentPid : Int32
  exitCode : Int32
  cmd : CStr
  timestamp : UInt64

/-- `proc_event_counters_t`. -/
structure Counters where
  forks : UInt64
  execs : UInt64
  exits : UInt64

/-- `procevent_priv_t`: `events` is the array, `tables` are the two tables and their pool. -/
structure ProceventPriv where
  counters : Counters
  events : Nat → ProcEvent
  eventCount : Nat
  eventHead : Nat
  tables : Tables PidEntry
  hasPrevious : Bool

def hashPid (pid : Int32) : Nat := pid.toUInt32.toNat % hashSize

def allocEntry (priv : ProceventPriv) : Option Nat :=
  if priv.tables.poolIdx ≥ poolSize then none else some priv.tables.poolIdx

def findPid (priv : ProceventPriv) (hash : Heads) (pid : Int32) : Option PidEntry :=
  (findFrom PidEntry.pid priv.tables.pool pid poolSize (hash (hashPid pid))).map
    fun i => (priv.tables.pool i).val

def insertPid (priv : ProceventPriv) (e : PidEntry) : ProceventPriv :=
  { priv with tables := priv.tables.add PidEntry.pid hashPid e }

def Counters.count (c : Counters) : ProcEventType → Counters
  | .fork => { c with forks := c.forks + 1 }
  | .exec => { c with execs := c.execs + 1 }
  | .exit => { c with exits := c.exits + 1 }
  | .none => c

/-- `add_event`, for the event it fills in. -/
def addEvent (priv : ProceventPriv) (e : ProcEvent) : ProceventPriv :=
  { priv with
    events := Function.update priv.events priv.eventHead e
    eventHead := (priv.eventHead + 1) % maxEvents
    eventCount := if priv.eventCount < maxEvents then priv.eventCount + 1 else priv.eventCount
    counters := priv.counters.count e.type }

def proceventInit : ProceventPriv where
  counters := ⟨0, 0, 0⟩
  events _ := {
    type := .none, pid := 0, parentPid := 0, exitCode := 0, cmd := CStr.lit "", timestamp := 0 }
  eventCount := 0
  eventHead := 0
  tables := Tables.init { pid := 0, cmd := CStr.lit "" }
  hasPrevious := false

/-! ## Collecting -/

/-- What a scan finds of one process: its directory, and the file with its name. -/
structure PidSample where
  pid : Int32
  comm : ProcFile

/-- A pass over /proc: the directory (`none` when `opendir` fails) and the clock, as the `i`-th
event added in the pass reads it. -/
structure Scan where
  dir : Option (List PidSample)
  time : Nat → UInt64

/-- The state in the middle of a collection, with the events it has added so far. -/
structure Collecting where
  priv : ProceventPriv
  added : List ProcEvent

/-- The command of a new entry: what was in the pool entry stays if nothing could be read. -/
def readCmd (p : PidSample) (old : CStr) : CStr :=
  match procReadFile p.comm (List.replicate 64 0) 64 with
  | (buf, some (_ + 1)) => ((cstr buf).upTo 0x0a).cut 63
  | _ => old

/-- The call of `add_event` for an entry: no parent, no exit code. -/
def Collecting.addEvent (time : Nat → UInt64) (s : Collecting) (type : ProcEventType)
    (e : PidEntry) : Collecting :=
  let event : ProcEvent := {
    type, pid := e.pid, parentPid := 0, exitCode := 0, cmd := e.cmd.cut 127
    timestamp := time s.added.length }
  ⟨Procevent.addEvent s.priv event, s.added ++ [event]⟩

/-- The body of the loop over /proc; it breaks when the pool is exhausted. -/
def scanPid (time : Nat → UInt64) (s : Collecting) (p : PidSample) : Collecting × Bool :=
  match allocEntry s.priv with
  | none => (s, false)
  | some i =>
    let e : PidEntry := { pid := p.pid, cmd := readCmd p (s.priv.tables.pool i).val.cmd }
    let s := { s with priv := insertPid s.priv e }
    if s.priv.hasPrevious ∧ findPid s.priv s.priv.tables.previous p.pid = none then
      (s.addEvent time .fork e, true)
    else (s, true)

/-- The body of the loop over the older table. -/
def exitPid (time : Nat → UInt64) (s : Collecting) (i : Nat) : Collecting :=
  let e := (s.priv.tables.pool i).val
  if findPid s.priv s.priv.tables.current e.pid = none then s.addEvent time .exit e else s

/-- The entries of the older table, chain by chain. -/
def prevEntries (priv : ProceventPriv) : List Nat :=
  (List.range hashSize).flatMap fun b =>
    chain priv.tables.pool poolSize (priv.tables.previous b)

/-- `procevent_collect`, with the events it adds; false for -1. -/
def proceventCollect (priv : ProceventPriv) (scan : Scan) : Collecting × Bool :=
  let s : Collecting := { priv := { priv with tables := priv.tables.swap }, added := [] }
  match scan.dir with
  | none => (s, false)
  | some ps =>
    let s := (iteratePids (scanPid scan.time) ps s 0).1
    let s := if s.priv.hasPrevious then (prevEntries s.priv).foldl (exitPid scan.time) s else s
    ({ s with priv := { s.priv with hasPrevious := true } }, true)

/-! ## Reading the results -/

/-- The `i`-th event from the end. -/
def recentEvent (priv : ProceventPriv) (i : Nat) : ProcEvent :=
  priv.events ((priv.eventHead + maxEvents - 1 - i) % maxEvents)

def proceventGetRecent (priv : ProceventPriv) (maxEntries : Nat) : List ProcEvent :=
  (List.range (min priv.eventCount maxEntries)).map (recentEvent priv)

def typeStr : ProcEventType → CStr
  | .fork => .lit "fork"
  | .exec => .lit "exec"
  | .exit => .lit "exit"
  | .none => .lit "unknown"

section

variable {δ : Type}

def eventCalls (e : ProcEvent) : List (JsonCall δ) :=
  objectCalls [[
    .kvInt (.lit "pid") e.pid.toInt64,
    .kvString (.lit "cmd") (some e.cmd),
    .kvString (.lit "type") (some (typeStr e.type)),
    .kvUint (.lit "timestamp") e.timestamp]]

def proceventSnapshot (priv : ProceventPriv) : List (JsonCall δ) :=
  objectCalls [
    .key (.lit "counters") :: objectCalls [[
      .kvUint (.lit "forks") priv.counters.forks,
      .kvUint (.lit "execs") priv.counters.execs,
      .kvUint (.lit "exits") priv.counters.exits]],
    .key (.lit "recent_events") ::
      arrayCalls ((List.range (min priv.eventCount 20)).map (recentEvent priv)) eventCalls]

end

end Procevent

end Qmem
