import Qmem.Builder

/-!
# Process states (`services/procstat.c`)
-/

namespace Qmem

open CLib

namespace Procstat

def maxBlocked : Nat := 100

/-- `procstat_summary_t`. -/
structure ProcstatSummary where
  running : Int32
  sleeping : Int32
  diskSleep : Int32
  zombie : Int32
  stopped : Int32
  total : Int32

/-- `procstat_entry_t`; the description is a pointer. -/
structure ProcstatEntry where
  pid : Int32
  tid : Int32
  cmd : CStr
  state : UInt8
  stateDesc : Option CStr
  wchan : CStr
  isBlocked : Bool

/-- `procstat_priv_t`; `blocked` is the array up to its count. -/
structure ProcstatPriv where
  summary : ProcstatSummary
  blocked : List ProcstatEntry

section

variable {δ : Type}

def blockedCalls (e : ProcstatEntry) : List (JsonCall δ) :=
  objectCalls [[
    .kvInt (.lit "pid") e.pid.toInt64,
    .kvInt (.lit "tid") e.tid.toInt64,
    .kvString (.lit "cmd") (some e.cmd),
    .kvString (.lit "state") e.stateDesc,
    .kvString (.lit "wchan") (some e.wchan)]]

def procstatSnapshot (priv : ProcstatPriv) : List (JsonCall δ) :=
  objectCalls [
    .key (.lit "summary") :: objectCalls [[
      .kvInt (.lit "total") priv.summary.total.toInt64,
      .kvInt (.lit "running") priv.summary.running.toInt64,
      .kvInt (.lit "sleeping") priv.summary.sleeping.toInt64,
      .kvInt (.lit "disk_sleep") priv.summary.diskSleep.toInt64,
      .kvInt (.lit "zombie") priv.summary.zombie.toInt64,
      .kvInt (.lit "stopped") priv.summary.stopped.toInt64]],
    .key (.lit "blocked") :: arrayCalls priv.blocked blockedCalls]

end

end Procstat

end Qmem
