import Qmem.Services.PidStat

/-!
# Blocked threads (`procstat_collect`)

The threads of a process are looked at only where its main thread is blocked itself: a worker that
waits for the disk behind a sleeping main thread is not listed.

Main result: `blocked_listed_iff`.
-/

namespace Qmem

open CLib

namespace Procstat

/-! ## Collecting -/

/-- What is read of a thread, with what is in the arrays before. -/
structure ThreadFiles where
  stat : ProcFile
  wchan : ProcFile
  buf : Bytes
  cmd : Bytes
  wchanBuf : Bytes

/-- A directory under /proc/<pid>/task. -/
structure TaskDir where
  tid : Int32
  files : ThreadFiles

/-- A directory under /proc: the main thread's files, and the directories of all threads, with
whether `opendir` finds them. -/
structure ProcDir where
  pid : Int32
  files : ThreadFiles
  tasks : List TaskDir
  opens : Bool

def stateToDesc (state : UInt8) : CStr :=
  if state = 0x52 then .lit "Running"
  else if state = 0x53 then .lit "Sleeping"
  else if state = 0x44 then .lit "Disk Sleep (blocked)"
  else if state = 0x5a then .lit "Zombie"
  else if state = 0x54 then .lit "Stopped"
  else if state = 0x74 then .lit "Tracing stop"
  else if state = 0x58 then .lit "Dead"
  else if state = 0x49 then .lit "Idle"
  else .lit "Unknown"

/-- `read_wchan`, into the array of an entry. -/
def readWchan (file : ProcFile) (wchan : Bytes) : CStr :=
  match procReadFile file wchan 64 with
  | (_, none) => .lit ""
  | (wchan, some n) =>
    if n = 0 then .lit ""
    else
      let (wchan, _) := trimTrailing (fun c => c == 0x0a || c == 0x0d) wchan n
      if cstr wchan = .lit "0" then .lit "" else cstr wchan

/-- The state and the command of a thread; `none` for -1. -/
def ThreadFiles.read (files : ThreadFiles) : Option (UInt8 × CStr) :=
  readProcState files.stat files.buf files.cmd 128

/-- The entry of a blocked thread. -/
def blockedEntry (pid tid : Int32) (state : UInt8) (cmd : CStr) (files : ThreadFiles) :
    ProcstatEntry where
  pid := pid
  tid := tid
  cmd := cmd.cut 127
  state := state
  stateDesc := some (stateToDesc state)
  wchan := readWchan files.wchan files.wchanBuf
  isBlocked := true

def ProcstatPriv.add (priv : ProcstatPriv) (e : ProcstatEntry) : ProcstatPriv :=
  { priv with blocked := priv.blocked ++ [e] }

/-- The body of the loop over the threads of a process. -/
def scanTask (pid : Int32) (priv : ProcstatPriv) (t : TaskDir) : ProcstatPriv :=
  if t.tid = pid then priv
  else
    match t.files.read with
    | none => priv
    | some (state, cmd) =>
      if state = 0x44 ∧ priv.blocked.length < maxBlocked then
        priv.add (blockedEntry pid t.tid state cmd t.files)
      else priv

def ProcstatSummary.count (summary : ProcstatSummary) (state : UInt8) : ProcstatSummary :=
  let summary := { summary with total := summary.total + 1 }
  if state = 0x52 then { summary with running := summary.running + 1 }
  else if state = 0x53 then { summary with sleeping := summary.sleeping + 1 }
  else if state = 0x44 then { summary with diskSleep := summary.diskSleep + 1 }
  else if state = 0x5a then { summary with zombie := summary.zombie + 1 }
  else if state = 0x54 ∨ state = 0x74 then { summary with stopped := summary.stopped + 1 }
  else summary

/-- The body of the loop over /proc. -/
def scanProc (priv : ProcstatPriv) (p : ProcDir) : ProcstatPriv :=
  match p.files.read with
  | none => priv
  | some (state, cmd) =>
    let priv := { priv with summary := priv.summary.count state }
    if state = 0x44 ∧ priv.blocked.length < maxBlocked then
      let priv := priv.add (blockedEntry p.pid p.pid state cmd p.files)
      if p.opens then p.tasks.foldl (scanTask p.pid) priv else priv
    else priv

def noSummary : ProcstatSummary where
  running := 0
  sleeping := 0
  diskSleep := 0
  zombie := 0
  stopped := 0
  total := 0

/-- `procstat_collect`; false for -1. It starts from nothing. -/
def procstatCollect (dir : Option (List ProcDir)) : ProcstatPriv × Bool :=
  let priv : ProcstatPriv := { summary := noSummary, blocked := [] }
  match dir with
  | none => (priv, false)
  | some ps => (ps.foldl scanProc priv, true)

/-! ## Threads in state D -/

/-- The stat file shows state D. -/
def ThreadFiles.blocked (files : ThreadFiles) : Bool :=
  match files.read with
  | some (state, _) => state = 0x44
  | none => false

/-- The threads in state D besides the main thread. -/
def ProcDir.workers (p : ProcDir) : List TaskDir :=
  p.tasks.filter fun t => t.tid ≠ p.pid ∧ t.files.blocked

/-- Process and thread of every thread in state D. -/
def ProcDir.blockedThreads (p : ProcDir) : List (Int32 × Int32) :=
  (if p.files.blocked then [(p.pid, p.pid)] else []) ++ p.workers.map fun t => (p.pid, t.tid)

def blockedThreads (ps : List ProcDir) : List (Int32 × Int32) := ps.flatMap ProcDir.blockedThreads

def ProcstatEntry.thread (e : ProcstatEntry) : Int32 × Int32 := (e.pid, e.tid)

/-- Those of them that are found. -/
def ProcDir.found (p : ProcDir) : List (Int32 × Int32) :=
  if p.files.blocked then
    (p.pid, p.pid) :: if p.opens then p.workers.map fun t => (p.pid, t.tid) else []
  else []

theorem ThreadFiles.blocked_iff {files : ThreadFiles} :
    files.blocked = true ↔ ∃ cmd, files.read = some (0x44, cmd) := by
  rw [ThreadFiles.blocked]
  split
  · case h_1 state cmd hread => simp [hread]
  · case h_2 hnone => simp [hnone]

/-- A thread is blocked if its line says so. -/
theorem ThreadFiles.blocked_of_line {files : ThreadFiles} {line : StatLine} {newline : Bool}
    {reads : List ReadResult} (hfile : files.stat = some reads)
    (hreads : ReadsAll reads (line.text ++ if newline then [0x0a] else []))
    (hfits : line.text.length ≤ 1023) : files.blocked = decide (line.state = 0x44) := by
  have hread : files.read = some (line.state, line.comm.cut 127) := by
    rw [ThreadFiles.read, hfile]
    exact line.readProcState_line hfits hreads files.buf files.cmd (by decide)
  rw [ThreadFiles.blocked, hread]

theorem scanTask_of_blocked {pid : Int32} {t : TaskDir} {cmd : CStr}
    (hread : t.files.read = some (0x44, cmd)) (hother : t.tid ≠ pid) {priv : ProcstatPriv}
    (hroom : priv.blocked.length < maxBlocked) :
    scanTask pid priv t = priv.add (blockedEntry pid t.tid 0x44 cmd t.files) := by
  rw [scanTask, if_neg hother, hread]
  exact if_pos ⟨rfl, hroom⟩

theorem scanTask_of_not {pid : Int32} {t : TaskDir}
    (h : ¬ (t.tid ≠ pid ∧ t.files.blocked = true)) (priv : ProcstatPriv) :
    scanTask pid priv t = priv := by
  rw [scanTask]
  by_cases hmain : t.tid = pid
  · exact if_pos hmain
  · rw [if_neg hmain]
    split
    · rfl
    · case h_2 state cmd hread =>
      refine if_neg fun hblocked => h ⟨hmain, ThreadFiles.blocked_iff.2 ⟨cmd, ?_⟩⟩
      rw [hread, hblocked.1]

/-- The threads of a process: its blocked workers are added, as long as there is room. -/
theorem scanTasks_blocked (p : ProcDir) (tasks : List TaskDir) (priv : ProcstatPriv)
    (hroom : priv.blocked.length +
      (tasks.filter fun t => t.tid ≠ p.pid ∧ t.files.blocked).length ≤ maxBlocked) :
    (tasks.foldl (scanTask p.pid) priv).blocked.map ProcstatEntry.thread =
      priv.blocked.map ProcstatEntry.thread ++
        (tasks.filter fun t => t.tid ≠ p.pid ∧ t.files.blocked).map fun t => (p.pid, t.tid) := by
  induction tasks generalizing priv with
  | nil => simp
  | cons t tasks ih =>
    rw [List.foldl_cons]
    by_cases hworker : t.tid ≠ p.pid ∧ t.files.blocked = true
    · rw [List.filter_cons_of_pos (by simpa using hworker)] at hroom ⊢
      rw [List.length_cons] at hroom
      obtain ⟨cmd, hread⟩ := ThreadFiles.blocked_iff.1 hworker.2
      have hlen : (priv.add (blockedEntry p.pid t.tid 0x44 cmd t.files)).blocked.length =
          priv.blocked.length + 1 := List.length_append
      rw [scanTask_of_blocked hread hworker.1 (by omega), ih _ (by omega), List.map_cons]
      simp [ProcstatPriv.add, ProcstatEntry.thread, blockedEntry]
    · rw [List.filter_cons_of_neg (by simpa using hworker)] at hroom ⊢
      rw [scanTask_of_not hworker]
      exact ih priv hroom

/-- One process. -/
theorem scanProc_blocked (p : ProcDir) (priv : ProcstatPriv)
    (hroom : priv.blocked.length + p.found.length ≤ maxBlocked) :
    (scanProc priv p).blocked.map ProcstatEntry.thread =
      priv.blocked.map ProcstatEntry.thread ++ p.found := by
  by_cases hblocked : p.files.blocked = true
  · obtain ⟨cmd, hread⟩ := ThreadFiles.blocked_iff.1 hblocked
    rw [ProcDir.found, if_pos hblocked] at hroom ⊢
    rw [List.length_cons] at hroom
    have hone : priv.blocked.length < maxBlocked := by omega
    rw [scanProc, hread]
    simp only [hone, and_self, if_true]
    by_cases hopens : p.opens = true
    · rw [if_pos hopens] at hroom ⊢
      rw [List.length_map, ProcDir.workers] at hroom
      rw [if_pos hopens, scanTasks_blocked p p.tasks _ (by
        simp only [ProcstatPriv.add, List.length_append, List.length_singleton]
        omega)]
      simp [ProcstatPriv.add, ProcstatEntry.thread, blockedEntry, ProcDir.workers]
    · rw [if_neg hopens, if_neg hopens]
      simp [ProcstatPriv.add, ProcstatEntry.thread, blockedEntry]
  · rw [ProcDir.found, if_neg hblocked, List.append_nil, scanProc]
    split
    · rfl
    · case h_2 state cmd hread =>
      have hother : ¬ state = 0x44 := by
        rintro rfl
        exact hblocked (ThreadFiles.blocked_iff.2 ⟨cmd, hread⟩)
      simp only [hother, false_and, if_false]

/-- All of them. -/
theorem scanProcs_blocked (ps : List ProcDir) (priv : ProcstatPriv)
    (hroom : priv.blocked.length + (ps.flatMap ProcDir.found).length ≤ maxBlocked) :
    (ps.foldl scanProc priv).blocked.map ProcstatEntry.thread =
      priv.blocked.map ProcstatEntry.thread ++ ps.flatMap ProcDir.found := by
  induction ps generalizing priv with
  | nil => simp
  | cons p ps ih =>
    rw [List.flatMap_cons, List.length_append] at hroom
    have hone := scanProc_blocked p priv (by omega)
    have hlen : (scanProc priv p).blocked.length = priv.blocked.length + p.found.length := by
      have hlen := congrArg List.length hone
      rwa [List.length_map, List.length_append, List.length_map] at hlen
    rw [List.foldl_cons, ih _ (by omega), hone, List.flatMap_cons, List.append_assoc]

/-! ## Which are found -/

theorem found_sublist (p : ProcDir) : p.found.Sublist p.blockedThreads := by
  rw [ProcDir.found, ProcDir.blockedThreads]
  split
  · split
    · exact List.Sublist.refl _
    · exact List.cons_sublist_cons.2 (List.nil_sublist _)
  · exact List.nil_sublist _

/-- The workers are found behind a blocked main thread. -/
theorem found_eq_iff (p : ProcDir) :
    p.found = p.blockedThreads ↔
      (p.workers ≠ [] → p.files.blocked = true ∧ p.opens = true) := by
  have hnone : [] = p.workers.map (fun t => (p.pid, t.tid)) ↔ p.workers = [] := by
    rw [eq_comm, List.map_eq_nil_iff]
  rw [ProcDir.found, ProcDir.blockedThreads]
  by_cases hblocked : p.files.blocked = true
  · by_cases hopens : p.opens = true <;> simp [hblocked, hopens, hnone]
  · simp [hblocked, hnone]

theorem flatMap_sublist {α β : Type} {part whole : α → List β}
    (hsub : ∀ x, (part x).Sublist (whole x)) (xs : List α) :
    (xs.flatMap part).Sublist (xs.flatMap whole) := by
  induction xs with
  | nil => exact List.Sublist.refl _
  | cons x xs ih => exact (hsub x).append ih

/-- Parts of the pieces are all of the whole only if each is all of its piece. -/
theorem flatMap_perm_iff {α β : Type} {part whole : α → List β}
    (hsub : ∀ x, (part x).Sublist (whole x)) (xs : List α) :
    (xs.flatMap part).Perm (xs.flatMap whole) ↔ ∀ x ∈ xs, part x = whole x := by
  induction xs with
  | nil => simp
  | cons x xs ih =>
    rw [List.forall_mem_cons, ← ih]
    constructor
    · intro hperm
      have hlen := hperm.length_eq
      rw [List.flatMap_cons, List.flatMap_cons, List.length_append, List.length_append] at hlen
      have hfirst := (hsub x).length_le
      have hothers := (flatMap_sublist hsub xs).length_le
      refine ⟨(hsub x).eq_of_length (by omega), ?_⟩
      rw [(flatMap_sublist hsub xs).eq_of_length (by omega)]
    · rintro ⟨hx, hxs⟩
      rw [List.flatMap_cons, List.flatMap_cons, hx]
      exact hxs.append_left _

/-- **Every blocked thread is listed once exactly when each process with a blocked worker has its
main thread blocked** (and its directory of threads can be opened). -/
theorem blocked_listed_iff (ps : List ProcDir) (hroom : (blockedThreads ps).length ≤ maxBlocked) :
    ((procstatCollect (some ps)).1.blocked.map ProcstatEntry.thread).Perm (blockedThreads ps) ↔
      ∀ p ∈ ps, p.workers ≠ [] → p.files.blocked = true ∧ p.opens = true := by
  have hfound := (flatMap_sublist found_sublist ps).length_le
  have hblocked := scanProcs_blocked ps { summary := noSummary, blocked := [] } (by
    rw [List.length_nil, Nat.zero_add]
    exact Nat.le_trans hfound hroom)
  rw [procstatCollect, hblocked, List.map_nil, List.nil_append, blockedThreads,
    flatMap_perm_iff found_sublist]
  exact forall₂_congr fun p _ => found_eq_iff p

/-- A stat file with that state. -/
def filesInState (state : UInt8) : ThreadFiles where
  stat := some [.data ([0x37, 0x20, 0x28, 0x78, 0x29, 0x20] ++ [state])]
  wchan := none
  buf := []
  cmd := []
  wchanBuf := []

/-- A process with two threads, by their states. -/
def twoThreads (main worker : UInt8) : ProcDir where
  pid := 7
  files := filesInState main
  tasks := [⟨7, filesInState main⟩, ⟨8, filesInState worker⟩]
  opens := true

theorem blocked_listed_iff_both :
    ((procstatCollect (some [twoThreads 0x44 0x44])).1.blocked.map ProcstatEntry.thread).Perm
      (blockedThreads [twoThreads 0x44 0x44]) :=
  (blocked_listed_iff [twoThreads 0x44 0x44] (by decide)).2 (by decide)

/-- A worker waits for the disk while the main thread sleeps: nothing is listed. -/
theorem sleeping_main_hides :
    blockedThreads [twoThreads 0x53 0x44] = [(7, 8)] ∧
      (procstatCollect (some [twoThreads 0x53 0x44])).1.blocked.map ProcstatEntry.thread = [] := by
  decide

end Procstat

end Qmem
