import Qmem.ProcLeftovers
import Qmem.Services.FdmonRuns
import Qmem.Services.HeapmonDeltas
import Qmem.Services.Procevent
import Qmem.Services.ProcmemDelta

/-!
# Whose commands are stored

Every service reads the command of a process into a slot that has been used before: procmem and
procevent into the entries of their pools, heapmon into its results, fdmon into an array on the
stack. What was in the slot shows through whenever a process cannot be read.

Main result: `commands_own_iff`.
-/

namespace Qmem

open CLib PoolTable

namespace Procmem

/-! ## procmem -/

/-- The processes that a scan stores. -/
def scanned (dir : Option (List ProcSample)) : List ProcSample :=
  ((dir.getD []).filter fun p => p.Readable).take (maxProcs * 2)

/-- What a slot of the pool holds. -/
def slotText (priv : ProcmemPriv) (i : Nat) : Bytes := (priv.tables.pool i).val.cmd

/-- The commands of the current table. -/
def stored (priv : ProcmemPriv) : List (Int32 × CStr) :=
  (List.range priv.tables.poolIdx).map fun i =>
    ((priv.tables.pool i).val.pid, cstr (priv.tables.pool i).val.cmd)

/-- All commands, in the table and in the lists, are those of processes of this scan. -/
structure CommandsOwn (dir : Option (List ProcSample)) (priv : ProcmemPriv) : Prop where
  table : stored priv = (scanned dir).map fun p => (p.pid, ownCommand p.cmdline p.comm)
  lists : ∀ e, e ∈ priv.growers ∨ e ∈ priv.shrinkers ∨ e ∈ priv.topRss →
    ∃ p ∈ scanned dir, e.pid = p.pid ∧ e.cmd = ownCommand p.cmdline p.comm

/-- The entry that is put into a slot. -/
def filled (fill : ProcSample × Bytes) : ProcEntry := fill.1.entry fill.2

/-- The invariant of a scan that began with `start`. -/
structure CommandScanning (start : ProcmemPriv) (done : List ProcSample) (ctx : CollectCtx) :
    Prop where
  written : start.tables.Written ctx.priv.tables ((fills (slotText start) done).map filled)
  changes : ∀ e ∈ ctx.changes, ∃ fill ∈ fills (slotText start) done,
    e.pid = fill.1.pid ∧ e.cmd = (cstr (filled fill).cmd).cut 127

theorem CommandScanning.poolIdx_eq {start : ProcmemPriv} {done : List ProcSample}
    {ctx : CollectCtx} (h : CommandScanning start done ctx) :
    ctx.priv.tables.poolIdx = done.length := by
  rw [h.written.poolIdx_eq, List.length_map, fills_length]

theorem CommandScanning.step {start : ProcmemPriv} {done : List ProcSample} {ctx : CollectCtx}
    (h : CommandScanning start done ctx) {p : ProcSample} (hp : p.Readable)
    (hroom : done.length < maxProcs * 2) :
    CommandScanning start (done ++ [p]) (collectCallback ctx p).1 := by
  have hslot : allocEntry ctx.priv = some done.length := by
    rw [allocEntry, h.poolIdx_eq, if_neg (by omega)]
  have hold : (ctx.priv.tables.pool done.length).val.cmd = slotText start done.length := by
    rw [h.written.old _ (by rw [List.length_map, fills_length]), slotText]
  rw [collectCallback, if_neg hp, hslot]
  simp only [hold]
  have hadd : start.tables.Written
      (insertHash ctx.priv (filled (p, slotText start done.length))).tables _ :=
    h.written.add (filled (p, slotText start done.length))
  refine ⟨?_, ?_⟩
  · rw [fills_concat, List.map_append]
    exact hadd
  · rw [fills_concat]
    have hbefore : ∀ e ∈ ctx.changes,
        ∃ fill ∈ fills (slotText start) done ++ [(p, slotText start done.length)],
          e.pid = fill.1.pid ∧ e.cmd = (cstr (filled fill).cmd).cut 127 := by
      intro e he
      obtain ⟨fill, hfill, hcmd⟩ := h.changes e he
      exact ⟨fill, List.mem_append_left _ hfill, hcmd⟩
    split
    · intro e he
      rcases List.mem_append.1 he with he | he
      · exact hbefore e he
      · rw [List.mem_singleton.1 he]
        exact ⟨_, List.mem_append_right _ (List.mem_singleton_self _), rfl, rfl⟩
    · exact hbefore

theorem command_scan (priv : ProcmemPriv) (dir : Option (List ProcSample)) :
    CommandScanning priv (scanned dir) (procmemScan priv dir) := by
  have hstart : CommandScanning priv [] {
      priv := { priv with tables := priv.tables.swap }, changes := [], maxChanges := maxProcs } :=
    ⟨Tables.written_swap priv.tables, fun e he => absurd he List.not_mem_nil⟩
  cases dir with
  | none => exact hstart
  | some ps =>
    exact iterate_readable (P := CommandScanning priv) (fun _ _ h => h.poolIdx_eq)
      (fun _ _ _ h hp hroom => h.step hp hroom) hstart (Nat.zero_le _) ps 0

theorem commandsOwn_iff (qsort : Qsort) (priv : ProcmemPriv) (dir : Option (List ProcSample)) :
    CommandsOwn dir (procmemCollect qsort priv dir) ↔
      ∀ fill ∈ fills (slotText priv) (scanned dir),
        CommandOk fill.1.cmdline fill.1.comm fill.2 := by
  have hscan := command_scan priv dir
  have htable : stored (procmemCollect qsort priv dir) =
      (fills (slotText priv) (scanned dir)).map fun fill =>
        (fill.1.pid, cstr (filled fill).cmd) := by
    have hvalues := congrArg (List.map fun e : ProcEntry => (e.pid, cstr e.cmd))
      hscan.written.values
    rw [List.map_map, List.map_map] at hvalues
    exact hvalues
  have hown := fills_own_iff ProcSample.pid ProcSample.cmdline ProcSample.comm (slotText priv)
    (scanned dir)
  constructor
  · intro h
    exact hown.1 (htable.symm.trans h.table)
  · intro hok
    refine ⟨htable.trans (hown.2 hok), fun e he => ?_⟩
    obtain ⟨fill, hfill, hpid, hcmd⟩ := hscan.changes e (changes_of_listed qsort he)
    have hright : cstr (filled fill).cmd = ownCommand fill.1.cmdline fill.1.comm :=
      (commandInto_own_iff _ _ fill.2).2 (hok fill hfill)
    refine ⟨fill.1, mem_of_mem_fills hfill, hpid, ?_⟩
    rw [hcmd, hright, CStr.cut_eq_self (ownCommand_length _ _)]

end Procmem

namespace Fdmon

/-! ## fdmon -/

/-- The processes that a scan makes an entry for. -/
def counted (scan : FdScan) : List FdSample :=
  (scan.procs.filter fun p => p.fds.isSome).take maxProcs

/-- All commands, of the local entries and in the lists, are those of processes of this scan. -/
structure CommandsOwn (scan : FdScan) (allProcs : List FdmonEntry) (priv : FdmonPriv) : Prop where
  entries : allProcs.map (fun e => (e.pid, cstr e.cmd)) =
    (counted scan).map fun p => (p.pid, ownCommand p.cmdline p.comm)
  lists : ∀ e, e ∈ priv.topConsumers ∨ e ∈ priv.leakers →
    ∃ p ∈ counted scan, e.pid = p.pid ∧ cstr e.cmd = ownCommand p.cmdline p.comm

theorem scanProc_command (stack : Nat → Bytes) (s : Collecting) {p : FdSample}
    (hp : p.fds.isSome) : ∃ e, (scanProc stack s p).allProcs = s.allProcs ++ [e] ∧
      e.pid = p.pid ∧ e.cmd = readCmd p (stack s.allProcs.length) := by
  obtain ⟨links, hlinks⟩ := Option.isSome_iff_exists.1 hp
  simp only [scanProc, countFds, hlinks, Option.map_some]
  exact ⟨_, rfl, rfl, rfl⟩

theorem scanLoop_commands (stack : Nat → Bytes) {done : List FdSample} {s : Collecting}
    (h : s.allProcs.map (fun e => (e.pid, e.cmd)) =
      (fills stack done).map fun fill => (fill.1.pid, readCmd fill.1 fill.2))
    (hlen : done.length ≤ maxProcs) (ps : List FdSample) :
    (scanLoop stack ps s).allProcs.map (fun e => (e.pid, e.cmd)) =
      (fills stack ((done ++ ps.filter fun p => p.fds.isSome).take maxProcs)).map
        fun fill => (fill.1.pid, readCmd fill.1 fill.2) := by
  induction ps generalizing done s with
  | nil => rwa [List.filter_nil, List.append_nil, List.take_of_length_le hlen]
  | cons p ps ih =>
    have hcount : s.allProcs.length = done.length := by
      have hlength := congrArg List.length h
      rwa [List.length_map, List.length_map, fills_length] at hlength
    rw [scanLoop]
    by_cases hroom : done.length < maxProcs
    · rw [if_pos (by omega)]
      by_cases hp : p.fds.isSome
      · obtain ⟨e, hprocs, hpid, hcmd⟩ := scanProc_command stack s hp
        have hnext : (scanProc stack s p).allProcs.map (fun e => (e.pid, e.cmd)) =
            (fills stack (done ++ [p])).map fun fill => (fill.1.pid, readCmd fill.1 fill.2) := by
          rw [hprocs, fills_concat, List.map_append, List.map_append, h, List.map_singleton,
            List.map_singleton, hpid, hcmd, hcount]
        have hrun := ih hnext (by rw [List.length_append]; exact hroom)
        rwa [List.append_assoc, List.singleton_append, ← List.filter_cons_of_pos (by exact hp)]
          at hrun
      · have hnone : p.fds = none := by simpa using hp
        have hskip : scanProc stack s p = s := by simp [scanProc, countFds, hnone]
        rw [hskip, List.filter_cons_of_neg (by exact hp)]
        exact ih h hlen
    · rw [if_neg (by omega), List.take_append_of_le_length (by omega),
        List.take_of_length_le hlen]
      exact h

theorem commandsOwn_iff (qsort : Qsort) (priv : FdmonPriv) (scan : FdScan) :
    CommandsOwn scan (fdmonScan priv scan).allProcs (fdmonCollect qsort priv (some scan)).1 ↔
      ∀ fill ∈ fills scan.stack (counted scan), CommandOk fill.1.cmdline fill.1.comm fill.2 := by
  have hscan : (fdmonScan priv scan).allProcs.map (fun e => (e.pid, e.cmd)) =
      (fills scan.stack (counted scan)).map fun fill => (fill.1.pid, readCmd fill.1 fill.2) :=
    scanLoop_commands scan.stack (show _ = (fills scan.stack []).map _ from rfl) (Nat.zero_le _)
      scan.procs
  have hentries : (fdmonScan priv scan).allProcs.map (fun e => (e.pid, cstr e.cmd)) =
      (fills scan.stack (counted scan)).map
        fun fill => (fill.1.pid, cstr (readCmd fill.1 fill.2)) := by
    have hmap := congrArg (List.map (Prod.map id cstr)) hscan
    rw [List.map_map, List.map_map] at hmap
    exact hmap
  have hown := fills_own_iff FdSample.pid FdSample.cmdline FdSample.comm scan.stack (counted scan)
  constructor
  · intro h
    exact hown.1 (hentries.symm.trans h.entries)
  · intro hok
    have hright : (fdmonScan priv scan).allProcs.map (fun e => (e.pid, cstr e.cmd)) =
        (counted scan).map fun p => (p.pid, ownCommand p.cmdline p.comm) :=
      hentries.trans (hown.2 hok)
    refine ⟨hright, fun e he => ?_⟩
    have hmem : e ∈ (fdmonScan priv scan).allProcs := by
      rcases he with he | he
      · exact (qsort.perm _ _).mem_iff.1 (List.mem_of_mem_take he)
      · have he := List.mem_of_mem_filter (List.mem_of_mem_take he)
        exact (qsort.perm _ _).mem_iff.1 ((qsort.perm _ _).mem_iff.1 he)
    have hpair := List.mem_map_of_mem (f := fun e : FdmonEntry => (e.pid, cstr e.cmd)) hmem
    rw [hright] at hpair
    obtain ⟨p, hp, heq⟩ := List.mem_map.1 hpair
    exact ⟨p, hp, congrArg Prod.fst heq.symm, congrArg Prod.snd heq.symm⟩

end Fdmon

namespace Heapmon

/-! ## heapmon -/

/-- What the slot of a result holds. -/
def slotText (priv : HeapmonPriv) (k : Nat) : Bytes := (priv.slots[k]?.map (·.cmd)).getD []

/-- The commands of all results are those of their processes in this cycle. -/
def CommandsOwn (cycle : HeapCycle) (priv : HeapmonPriv) : Prop :=
  ∀ e ∈ priv.results,
    cstr e.cmd = ownCommand (cycle.sample e.pid).cmdline (cycle.sample e.pid).comm

/-- What a result has of the process it was made for, in a slot that held `fill.2`. -/
def filled (cycle : HeapCycle) (fill : Reading × Bytes) : Int32 × Bytes :=
  (fill.1.pid, readCmd (cycle.sample fill.1.pid) fill.2)

theorem scanTarget_command {cycle : HeapCycle} {pid : Int32} {r : Reading}
    (hr : cycle.reading pid = some r) (priv : HeapmonPriv) :
    let next := scanTarget cycle.procmem cycle.sample priv pid
    ∃ e : HeapmonEntry, (e.pid, e.cmd) = filled cycle (r, slotText priv priv.resultCount) ∧
      next.slots = priv.slots.set priv.resultCount e ∧
      next.resultCount = priv.resultCount + 1 := by
  intro next
  have hpid : r.pid = pid := reading_pid hr
  simp only [next, scanTarget_read hr, filled, slotText, hpid]
  exact ⟨_, rfl, rfl, trivial⟩

/-- The invariant of a scan that began with `start`. -/
structure CommandScanning (cycle : HeapCycle) (start : HeapmonPriv) (done : List Reading)
    (priv : HeapmonPriv) : Prop where
  length : priv.slots.length = maxTargets
  count : priv.resultCount = done.length
  rest : ∀ k, done.length ≤ k → priv.slots[k]? = start.slots[k]?
  results : priv.results.map (fun e => (e.pid, e.cmd)) =
    (fills (slotText start) done).map (filled cycle)

theorem CommandScanning.step {cycle : HeapCycle} {start priv : HeapmonPriv} {done : List Reading}
    (h : CommandScanning cycle start done priv) {pid : Int32} {r : Reading}
    (hr : cycle.reading pid = some r) (hroom : done.length < maxTargets) :
    CommandScanning cycle start (done ++ [r])
      (scanTarget cycle.procmem cycle.sample priv pid) := by
  obtain ⟨e, hcmd, hslots, hcount⟩ := scanTarget_command hr priv
  have hold : slotText priv priv.resultCount = slotText start done.length := by
    rw [slotText, h.count, h.rest _ le_rfl, slotText]
  refine ⟨?_, ?_, ?_, ?_⟩
  · rw [hslots, List.length_set, h.length]
  · rw [hcount, h.count, List.length_append, List.length_singleton]
  · intro k hk
    rw [List.length_append, List.length_singleton] at hk
    rw [hslots, h.count, List.getElem?_set_ne (by omega)]
    exact h.rest k (by omega)
  · have hslot : priv.resultCount < priv.slots.length := by
      rw [h.count, h.length]
      exact hroom
    rw [results_set hslot hslots hcount, fills_concat, List.map_append, List.map_append, h.results,
      List.map_singleton, List.map_singleton, hcmd, hold]

theorem command_run (run : List HeapCycle) (cycle : HeapCycle) :
    CommandScanning cycle (heapmonRun run) cycle.readings
      (heapmonScan cycle.procmem cycle.sample (heapmonRun run)) := by
  have hstart : CommandScanning cycle (heapmonRun run) [] {
      heapmonRun run with
      targets := refreshTargets cycle.procmem
      previous := (heapmonRun run).current
      current := []
      resultCount := 0 } := ⟨(after_run run).length, rfl, fun _ _ => rfl, rfl⟩
  exact heapmonScan_loop (P := CommandScanning cycle (heapmonRun run)) hstart
    fun _ _ _ _ h hr hlt => h.step hr hlt

theorem commandsOwn_iff (run : List HeapCycle) (cycle : HeapCycle) :
    CommandsOwn cycle (heapmonRun (run ++ [cycle])) ↔
      ∀ fill ∈ fills (slotText (heapmonRun run)) cycle.readings,
        CommandOk (cycle.sample fill.1.pid).cmdline (cycle.sample fill.1.pid).comm fill.2 := by
  have hrun : heapmonRun (run ++ [cycle]) =
      heapmonCollect cycle.procmem cycle.sample (heapmonRun run) := by
    rw [heapmonRun, Run.state_append]
    rfl
  have hresults (e : HeapmonEntry) : e ∈ (heapmonRun (run ++ [cycle])).results ↔
      e ∈ (heapmonScan cycle.procmem cycle.sample (heapmonRun run)).results := by
    rw [hrun, heapmonCollect_results (after_run run) cycle]
    exact (Heapmon.sortResults_perm _).mem_iff
  have hscan := (command_run run cycle).results
  have hown (fill : Reading × Bytes) : cstr (filled cycle fill).2 =
      ownCommand (cycle.sample fill.1.pid).cmdline (cycle.sample fill.1.pid).comm ↔
        CommandOk (cycle.sample fill.1.pid).cmdline (cycle.sample fill.1.pid).comm fill.2 :=
    commandInto_own_iff _ _ fill.2
  constructor
  · intro h fill hfill
    have hmem := List.mem_map_of_mem (f := filled cycle) hfill
    rw [← hscan] at hmem
    obtain ⟨e, he, heq⟩ := List.mem_map.1 hmem
    have hpid : e.pid = fill.1.pid := congrArg Prod.fst heq
    have hcmd : e.cmd = (filled cycle fill).2 := congrArg Prod.snd heq
    have hright := h e ((hresults e).2 he)
    rw [hpid, hcmd] at hright
    exact (hown fill).1 hright
  · intro hok e he
    have hmem := List.mem_map_of_mem (f := fun e : HeapmonEntry => (e.pid, e.cmd))
      ((hresults e).1 he)
    rw [hscan] at hmem
    obtain ⟨fill, hfill, heq⟩ := List.mem_map.1 hmem
    have hpid : fill.1.pid = e.pid := congrArg Prod.fst heq
    have hcmd : (filled cycle fill).2 = e.cmd := congrArg Prod.snd heq
    have hright := (hown fill).2 (hok fill hfill)
    rwa [hcmd, hpid] at hright

end Heapmon

namespace Procevent

/-! ## procevent -/

/-- The name of a process, as far as the buffer of 64 bytes and the first line go. -/
def ownName (comm : ProcFile) : CStr :=
  if (fileData comm 64).2 then ((cstr (fileData comm 64).1).upTo 0x0a).cut 63 else .lit ""

/-- There is something to be read, or nothing in the entry. -/
def NameOk (comm : ProcFile) (old : CStr) : Prop :=
  ((fileData comm 64).2 = true ∧ (fileData comm 64).1 ≠ []) ∨ old = .lit ""

instance (comm : ProcFile) (old : CStr) : Decidable (NameOk comm old) :=
  inferInstanceAs (Decidable (_ ∨ _))

theorem readCmd_of_data {p : PidSample} (h : (fileData p.comm 64).2 = true)
    (hne : (fileData p.comm 64).1 ≠ []) (old : CStr) : readCmd p old = ownName p.comm := by
  rw [readCmd, procReadFile_ok h, ownName, if_pos h]
  generalize (fileData p.comm 64).1 = text at hne
  obtain ⟨c, text, rfl⟩ := List.exists_cons_of_ne_nil hne
  rw [memcpy_nul]
  show ((cstr (c :: text ++ 0 :: _)).upTo 0x0a).cut 63 = _
  rw [cstr_append_nul]

theorem readCmd_of_nothing {p : PidSample}
    (h : ¬ ((fileData p.comm 64).2 = true ∧ (fileData p.comm 64).1 ≠ [])) (old : CStr) :
    readCmd p old = old ∧ ownName p.comm = .lit "" := by
  rw [readCmd, ownName]
  cases hok : (fileData p.comm 64).2 with
  | false =>
    rw [procReadFile_fails hok]
    exact ⟨rfl, rfl⟩
  | true =>
    have hnil : (fileData p.comm 64).1 = [] := by
      by_contra hne
      exact h ⟨hok, hne⟩
    rw [procReadFile_ok hok, hnil]
    exact ⟨rfl, rfl⟩

/-- The command of an event is the name of its process exactly when there is one to be read, or
nothing in the entry. -/
theorem readCmd_own_iff (p : PidSample) (old : CStr) :
    (readCmd p old).cut 127 = ownName p.comm ↔ NameOk p.comm old := by
  by_cases h : (fileData p.comm 64).2 = true ∧ (fileData p.comm 64).1 ≠ []
  · have hlen : (ownName p.comm).length ≤ 127 := by
      rw [ownName, if_pos h.1]
      exact (CStr.length_cut_le _ _).trans (by decide)
    rw [readCmd_of_data h.1 h.2, CStr.cut_eq_self hlen]
    exact iff_of_true rfl (.inl h)
  · obtain ⟨hread, hown⟩ := readCmd_of_nothing h old
    rw [hread, hown, NameOk, or_iff_right h, CStr.ext_iff, CStr.ext_iff]
    show old.bytes.take 127 = [] ↔ old.bytes = []
    simp

/-- The processes that a scan adds a fork for, each with what its entry held before. -/
def forkFills (time : Nat → UInt64) : List PidSample → Collecting → List (PidSample × CStr)
  | [], _ => []
  | p :: ps, s =>
    match scanPid time s p with
    | (_, false) => []
    | (next, true) =>
      let old := (s.priv.tables.pool s.priv.tables.poolIdx).val.cmd
      if next.added.length = s.added.length then forkFills time ps next
      else (p, old) :: forkFills time ps next

/-- The forks of a collection. -/
def Scan.forkFills (scan : Scan) (priv : ProceventPriv) : List (PidSample × CStr) :=
  Procevent.forkFills scan.time (scan.dir.getD [])
    { priv := { priv with tables := priv.tables.swap }, added := [] }

/-- The forks among some events. -/
def forksOf (added : List ProcEvent) : List (Int32 × CStr) :=
  (added.filter fun e => e.type = .fork).map fun e => (e.pid, e.cmd)

theorem forksOf_append (es fs : List ProcEvent) :
    forksOf (es ++ fs) = forksOf es ++ forksOf fs := by
  rw [forksOf, List.filter_append, List.map_append]
  rfl

/-- What one process adds. -/
theorem scanPid_added {time : Nat → UInt64} {s next : Collecting} {p : PidSample}
    (h : scanPid time s p = (next, true)) :
    next.added = s.added ∨ ∃ e, next.added = s.added ++ [e] ∧ e.type = .fork ∧ e.pid = p.pid ∧
      e.cmd = (readCmd p (s.priv.tables.pool s.priv.tables.poolIdx).val.cmd).cut 127 := by
  rw [scanPid, allocEntry] at h
  by_cases hfull : s.priv.tables.poolIdx ≥ poolSize
  · rw [if_pos hfull] at h
    exact absurd (congrArg Prod.snd h) Bool.false_ne_true
  · rw [if_neg hfull] at h
    simp only at h
    split at h
    · rw [← (Prod.mk.inj h).1]
      exact .inr ⟨_, rfl, rfl, rfl, rfl⟩
    · rw [← (Prod.mk.inj h).1]
      exact .inl rfl

/-- Where the pass ends because the pool is full, nothing has changed. -/
theorem scanPid_full {time : Nat → UInt64} {s next : Collecting} {p : PidSample}
    (h : scanPid time s p = (next, false)) : next = s := by
  rw [scanPid, allocEntry] at h
  by_cases hfull : s.priv.tables.poolIdx ≥ poolSize
  · rw [if_pos hfull] at h
    exact (Prod.mk.inj h).1.symm
  · rw [if_neg hfull] at h
    simp only at h
    split at h
    · exact absurd (Prod.mk.inj h).2 Bool.false_ne_true.symm
    · exact absurd (Prod.mk.inj h).2 Bool.false_ne_true.symm

theorem forksOf_scan (time : Nat → UInt64) (ps : List PidSample) (s : Collecting) (count : Nat) :
    forksOf (iteratePids (scanPid time) ps s count).1.added =
      forksOf s.added ++
        (forkFills time ps s).map fun fill => (fill.1.pid, (readCmd fill.1 fill.2).cut 127) := by
  induction ps generalizing s count with
  | nil => exact (List.append_nil _).symm
  | cons p ps ih =>
    rw [iteratePids, forkFills]
    rcases hscan : scanPid time s p with ⟨next, _ | _⟩
    · rw [scanPid_full hscan]
      exact (List.append_nil _).symm
    · show forksOf (iteratePids (scanPid time) ps next (count + 1)).1.added = _
      rw [ih]
      rcases scanPid_added hscan with hsame | ⟨e, hadded, htype, hpid, hcmd⟩
      · simp only [hsame, if_true]
      · have hfork : forksOf (s.added ++ [e]) = forksOf s.added ++ [(e.pid, e.cmd)] := by
          rw [forksOf_append, forksOf, forksOf, List.filter_cons_of_pos (by simpa using htype)]
          rfl
        have hlonger : (s.added ++ [e]).length ≠ s.added.length := by simp
        simp only [hadded, if_neg hlonger, hfork, List.map_cons, hpid, hcmd, List.append_assoc,
          List.singleton_append]

/-- Exits are no forks. -/
theorem forksOf_exits (time : Nat → UInt64) (is : List Nat) (s : Collecting) :
    forksOf (is.foldl (exitPid time) s).added = forksOf s.added := by
  induction is generalizing s with
  | nil => rfl
  | cons i is ih =>
    rw [List.foldl_cons, ih, exitPid]
    split
    · rw [Collecting.addEvent, forksOf_append]
      exact List.append_nil _
    · rfl

theorem forksOf_collect (priv : ProceventPriv) (scan : Scan) :
    forksOf (proceventCollect priv scan).1.added =
      (scan.forkFills priv).map fun fill =>
        (fill.1.pid, (readCmd fill.1 fill.2).cut 127) := by
  rw [proceventCollect, Scan.forkFills]
  cases scan.dir with
  | none => rfl
  | some ps =>
    have hscan := forksOf_scan scan.time ps
      { priv := { priv with tables := priv.tables.swap }, added := [] } 0
    rw [Option.getD_some]
    simp only
    split
    · rw [forksOf_exits]
      exact hscan
    · exact hscan

/-- The forks of a collection have the names of their processes. -/
theorem forks_own_iff (priv : ProceventPriv) (scan : Scan) :
    forksOf (proceventCollect priv scan).1.added =
        (scan.forkFills priv).map (fun fill => (fill.1.pid, ownName fill.1.comm)) ↔
      ∀ fill ∈ scan.forkFills priv, NameOk fill.1.comm fill.2 := by
  rw [forksOf_collect, List.map_inj_left]
  refine forall₂_congr fun fill _ => ?_
  rw [Prod.mk.injEq, and_iff_right rfl]
  exact readCmd_own_iff fill.1 fill.2

/-! ## Their events -/

/-- The service after these collections, whether they fail or not. -/
def proceventScans (scans : List Scan) : ProceventPriv :=
  Run.state (fun priv scan => (proceventCollect priv scan).1.priv) proceventInit scans

/-- In the middle of a collection that began with `start`, an event is either as old as that or has
been added. -/
def Kept (start : ProceventPriv) (s : Collecting) : Prop :=
  ∀ j, s.priv.events j = start.events j ∨ s.priv.events j ∈ s.added

theorem Kept.addEvent {start : ProceventPriv} {s : Collecting} (h : Kept start s)
    (time : Nat → UInt64) (type : ProcEventType) (e : PidEntry) :
    Kept start (s.addEvent time type e) := by
  intro j
  show Function.update s.priv.events s.priv.eventHead _ j = _ ∨
    Function.update s.priv.events s.priv.eventHead _ j ∈ _
  by_cases hj : j = s.priv.eventHead
  · subst hj
    rw [Function.update_self]
    exact .inr (List.mem_append_right _ (List.mem_singleton_self _))
  · rw [Function.update_of_ne hj]
    exact (h j).imp_right (List.mem_append_left _)

theorem Kept.scanPid {start : ProceventPriv} {s : Collecting} (h : Kept start s)
    (time : Nat → UInt64) (p : PidSample) : Kept start (scanPid time s p).1 := by
  rw [Procevent.scanPid]
  split
  · exact h
  · simp only
    split
    · exact Kept.addEvent (s := ⟨insertPid s.priv _, s.added⟩) h time .fork _
    · exact h

theorem Kept.iterate {start : ProceventPriv} {s : Collecting} (h : Kept start s)
    (time : Nat → UInt64) (ps : List PidSample) (count : Nat) :
    Kept start (iteratePids (Procevent.scanPid time) ps s count).1 := by
  exact iteratePids_keeps (fun _ p hs => hs.scanPid time p) h ps count

theorem Kept.exits {start : ProceventPriv} {s : Collecting} (h : Kept start s)
    (time : Nat → UInt64) (is : List Nat) : Kept start (is.foldl (exitPid time) s) := by
  refine List.foldlRecOn is (exitPid time) h fun s hs i _ => ?_
  rw [exitPid]
  split
  · exact hs.addEvent time .exit _
  · exact hs

theorem kept_collect (priv : ProceventPriv) (scan : Scan) :
    Kept priv (proceventCollect priv scan).1 := by
  have hstart : Kept priv { priv := { priv with tables := priv.tables.swap }, added := [] } :=
    fun _ => .inl rfl
  rw [proceventCollect]
  cases scan.dir with
  | none => exact hstart
  | some ps =>
    have hscan := hstart.iterate scan.time ps 0
    simp only
    split
    · generalize prevEntries _ = is
      intro j
      exact hscan.exits scan.time is j
    · exact hscan

/-- Every event that is stored has been added by one of the collections. -/
theorem added_of_stored (scans : List Scan) {j : Nat}
    (h : ((proceventScans scans).events j).type ≠ .none) :
    ∃ before scan, before ++ [scan] <+: scans ∧
      (proceventScans scans).events j ∈
        (proceventCollect (proceventScans before) scan).1.added := by
  induction scans using List.reverseRecOn with
  | nil => exact absurd rfl h
  | append_singleton scans scan ih =>
    have hlast : proceventScans (scans ++ [scan]) =
        (proceventCollect (proceventScans scans) scan).1.priv := by
      rw [proceventScans, Run.state_append]
      rfl
    rw [hlast] at h ⊢
    rcases kept_collect (proceventScans scans) scan j with hkept | hadded
    · rw [hkept] at h ⊢
      obtain ⟨before, scan', hprefix, hmem⟩ := ih h
      exact ⟨before, scan', hprefix.trans (List.prefix_append _ _), hmem⟩
    · exact ⟨scans, scan, List.prefix_rfl, hadded⟩

theorem mem_of_mem_forkFills {time : Nat → UInt64} {ps : List PidSample} {s : Collecting}
    {fill : PidSample × CStr} (h : fill ∈ forkFills time ps s) : fill.1 ∈ ps := by
  induction ps generalizing s with
  | nil => exact absurd h List.not_mem_nil
  | cons p ps ih =>
    rw [forkFills] at h
    rcases hscan : scanPid time s p with ⟨next, _ | _⟩
    · rw [hscan] at h
      exact absurd h List.not_mem_nil
    · rw [hscan] at h
      simp only at h
      split at h
      · exact List.mem_cons_of_mem p (ih h)
      · rcases List.mem_cons.1 h with rfl | h
        · exact List.mem_cons_self
        · exact List.mem_cons_of_mem p (ih h)

/-- Where every collection of a run has found the names of the forks it adds, every fork that is
stored has the name of its process. -/
theorem stored_forks_own {scans : List Scan}
    (hok : ∀ before scan, before ++ [scan] <+: scans →
      ∀ fill ∈ scan.forkFills (proceventScans before), NameOk fill.1.comm fill.2)
    {maxEntries : Nat} {e : ProcEvent}
    (he : e ∈ proceventGetRecent (proceventScans scans) maxEntries) (htype : e.type = .fork) :
    ∃ scan ∈ scans, ∃ p ∈ scan.dir.getD [], e.pid = p.pid ∧ e.cmd = ownName p.comm := by
  obtain ⟨i, _, rfl⟩ := List.mem_map.1 he
  have hsome : (recentEvent (proceventScans scans) i).type ≠ .none := by
    rw [htype]
    decide
  obtain ⟨before, scan, hprefix, hadded⟩ := added_of_stored scans hsome
  have hmem : recentEvent (proceventScans scans) i ∈
      (proceventCollect (proceventScans before) scan).1.added.filter fun e => e.type = .fork :=
    List.mem_filter.2 ⟨hadded, decide_eq_true htype⟩
  have hfork := List.mem_map_of_mem (f := fun e : ProcEvent => (e.pid, e.cmd)) hmem
  rw [← forksOf, (forks_own_iff _ scan).2 (hok before scan hprefix)] at hfork
  obtain ⟨fill, hfill, heq⟩ := List.mem_map.1 hfork
  refine ⟨scan, hprefix.subset (by simp), fill.1, mem_of_mem_forkFills hfill, ?_, ?_⟩
  · exact (congrArg Prod.fst heq).symm
  · exact (congrArg Prod.snd heq).symm

end Procevent

open Procmem Fdmon Heapmon Procevent

/-- **The stored commands** are those of the processes that they are stored for exactly when every
slot has been filled well: with a command line that does not hide a name, or with a name, or with
nothing over nothing. -/
theorem commands_own_iff (qsort : Qsort) :
    (∀ (dirs : List (Option (List ProcSample))) (dir : Option (List ProcSample)),
      Procmem.CommandsOwn dir (procmemRun qsort (dirs ++ [dir])) ↔
        ∀ fill ∈ fills (Procmem.slotText (procmemRun qsort dirs)) (scanned dir),
          CommandOk fill.1.cmdline fill.1.comm fill.2) ∧
    (∀ (run : List (Option FdScan)) (scan : FdScan),
      Fdmon.CommandsOwn scan (fdmonScan (fdmonRun qsort run) scan).allProcs
          (fdmonRun qsort (run ++ [some scan])) ↔
        ∀ fill ∈ fills scan.stack (counted scan),
          CommandOk fill.1.cmdline fill.1.comm fill.2) ∧
    (∀ (run : List HeapCycle) (cycle : HeapCycle),
      Heapmon.CommandsOwn cycle (heapmonRun (run ++ [cycle])) ↔
        ∀ fill ∈ fills (Heapmon.slotText (heapmonRun run)) cycle.readings,
          CommandOk (cycle.sample fill.1.pid).cmdline (cycle.sample fill.1.pid).comm fill.2) ∧
    (∀ (scans : List Scan) (scan : Scan),
      forksOf (proceventCollect (proceventScans scans) scan).1.added =
          (scan.forkFills (proceventScans scans)).map
            (fun fill => (fill.1.pid, ownName fill.1.comm)) ↔
        ∀ fill ∈ scan.forkFills (proceventScans scans), NameOk fill.1.comm fill.2) ∧
    ∀ (scans : List Scan),
      (∀ before scan, before ++ [scan] <+: scans →
        ∀ fill ∈ scan.forkFills (proceventScans before), NameOk fill.1.comm fill.2) →
      ∀ maxEntries, ∀ e ∈ proceventGetRecent (proceventScans scans) maxEntries, e.type = .fork →
        ∃ scan ∈ scans, ∃ p ∈ scan.dir.getD [], e.pid = p.pid ∧ e.cmd = ownName p.comm := by
  refine ⟨fun dirs dir => ?_, fun run scan => ?_, Heapmon.commandsOwn_iff,
    fun scans scan => forks_own_iff _ scan, fun scans hok _ _ he => stored_forks_own hok he⟩
  · rw [procmemRun, List.foldl_append]
    exact Procmem.commandsOwn_iff qsort _ dir
  · have hrun : fdmonRun qsort (run ++ [some scan]) =
        (fdmonCollect qsort (fdmonRun qsort run) (some scan)).1 := by
      rw [fdmonRun, Run.state_append]
      rfl
    rw [hrun]
    exact Fdmon.commandsOwn_iff qsort _ scan

/-! ## What is left of a process -/

/-- A process with these two files. -/
def processOf (pid : Int32) (cmdline comm : Option String) : ProcSample where
  pid
  vmRss := 1
  vmData := 1
  cmdline := cmdline.map fun text => [.data (CStr.lit text).bytes]
  comm := comm.map fun text => [.data (CStr.lit text).bytes]

/-- A kernel thread has a name, but no command line. -/
def threadScan : FdScan where
  procs := [{
    pid := 2
    start := 0
    fds := some []
    cmdline := some []
    comm := some [.data (CStr.lit "kthreadd\n").bytes]
    fds_lt := fun links hlinks => by
      rw [← Option.some.inj hlinks]
      decide }]
  stack _ := []
  distinct := by decide

/-- A pass over processes with these names. -/
def passOf (names : List (Int32 × Option String)) : Scan where
  dir := some (names.map fun (pid, name) =>
    { pid, comm := name.map fun text => [.data (CStr.lit text).bytes] })
  time _ := 0

theorem commands_own_iff_named :
    let pass := passOf [(1, some "init\n")]
    let pass' := passOf [(1, none), (2, some "sh\n")]
    Procmem.CommandsOwn (some [processOf 2 none (some "sh\n")])
        (procmemRun .insertion ([some [processOf 1 (some "init") none]] ++
          [some [processOf 2 none (some "sh\n")]])) ∧
      ∀ e ∈ proceventGetRecent (proceventScans [pass, pass']) 20, e.type = .fork →
        ∃ scan ∈ [pass, pass'], ∃ p ∈ scan.dir.getD [],
          e.pid = p.pid ∧ e.cmd = ownName p.comm := by
  intro pass pass'
  obtain ⟨hprocmem, _, _, _, hprocevent⟩ := commands_own_iff .insertion
  refine ⟨(hprocmem _ _).2 (by decide +kernel), hprocevent _ ?_ 20⟩
  intro before scan hprefix
  rcases before with _ | ⟨first, _ | ⟨second, before⟩⟩
  · obtain ⟨rfl, _⟩ := List.cons_prefix_cons.1 hprefix
    decide +kernel
  · obtain ⟨rfl, hrest⟩ := List.cons_prefix_cons.1 hprefix
    obtain ⟨rfl, _⟩ := List.cons_prefix_cons.1 hrest
    decide +kernel
  · have hlen := hprefix.length_le
    simp at hlen

/-- The first process is gone before the second is scanned, whose files are gone as well; and a name
is hidden by a command line that is empty. -/
theorem commands_left_over :
    (¬ ∀ (dirs : List (Option (List ProcSample))) (dir : Option (List ProcSample)),
      Procmem.CommandsOwn dir (procmemRun .insertion (dirs ++ [dir]))) ∧
    (¬ ∀ (run : List (Option FdScan)) (scan : FdScan),
      Fdmon.CommandsOwn scan (fdmonScan (fdmonRun .insertion run) scan).allProcs
        (fdmonRun .insertion (run ++ [some scan]))) ∧
    ¬ ∀ (scans : List Scan) (scan : Scan),
      forksOf (proceventCollect (proceventScans scans) scan).1.added =
        (scan.forkFills (proceventScans scans)).map
          (fun fill => (fill.1.pid, ownName fill.1.comm)) := by
  refine ⟨fun h => ?_, fun h => ?_, fun h => ?_⟩
  · have htable := (h [some [processOf 1 (some "init") none]] (some [processOf 2 none none])).table
    revert htable
    decide +kernel
  · have hentries := (h [] threadScan).entries
    revert hentries
    decide +kernel
  · have hforks := h [passOf [(1, some "init\n"), (3, some "sh\n")]] (passOf [(1, none), (2, none)])
    revert hforks
    decide +kernel

end Qmem
