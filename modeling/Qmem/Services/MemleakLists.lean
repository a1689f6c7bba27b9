import Qmem.Services.HeapmonDeltas
import Qmem.Services.Memleak
import Qmem.Services.ProcmemInfo

/-!
# The processes that memleak lists twice

A process can be under `user_leaks`, as heapmon's collection left it, and under `process_usage`,
as `heapmon_get_top_consumers` computes it when it is asked. Both take the RSS from procmem, which
knows every target. But only the collection takes the growth of a process that it has not measured
before.

Main result: `listed_twice_iff`.
-/

namespace Qmem

open CLib PoolTable

namespace Procmem

/-! ## What procmem knows of its lists -/

theorem find_of_listed (qsort : Qsort) (dirs : List (Option (List ProcSample)))
    (dir : Option (List ProcSample)) {e : ProcmemEntry}
    (he : e ∈ (procmemCollect qsort (procmemRun qsort dirs) dir).growers ∨
      e ∈ (procmemCollect qsort (procmemRun qsort dirs) dir).topRss) :
    let procmem := procmemCollect qsort (procmemRun qsort dirs) dir
    ∃ now, findInHash procmem procmem.tables.current e.pid = some now := by
  intro procmem
  have hscan := (after_any qsort dirs).collecting (lastEntered_length_le dirs) dir
  obtain ⟨es, fs, -, hfs, hround⟩ := hscan.round
  have hlen : fs.length ≤ maxProcs * 2 := by
    have hle := entered_length_le dir
    rwa [← hfs, List.length_map] at hle
  have hentered : e.change.1 ∈ fs.map ProcEntry.reading := by
    have hlisted := changes_of_listed qsort (he.imp_right .inr)
    have hmem := List.mem_map_of_mem (f := fun e => e.change.1) hlisted
    rw [hscan.recorded] at hmem
    rw [hfs]
    exact List.mem_of_mem_take hmem
  obtain ⟨now, hnow, hreading⟩ := List.mem_map.1 hentered
  have hpid : now.pid = e.pid := congrArg Reading.pid hreading
  have hfound := (hround.settled.find_isSome_iff e.pid hlen).2 ⟨now, hnow, hpid⟩
  obtain ⟨i, hi⟩ := Option.isSome_iff_exists.1 hfound
  refine ⟨((procmemScan (procmemRun qsort dirs) dir).priv.tables.pool i).val, ?_⟩
  exact congrArg (Option.map _) hi

/-- The RSS of a process differs from that of its older entry, as far as this can still be
found. -/
def RssChanged (procmem : ProcmemPriv) (pid : Int32) : Prop :=
  ∃ now before, findInHash procmem procmem.tables.current pid = some now ∧
    findInHash procmem procmem.tables.previous pid = some before ∧ now.rssKb ≠ before.rssKb

theorem findInHash_pid {procmem : ProcmemPriv} {hash : Heads} {pid : Int32} {e : ProcEntry}
    (h : findInHash procmem hash pid = some e) : e.pid = pid := by
  rw [findInHash, findFrom_eq, Option.map_eq_some_iff] at h
  obtain ⟨i, hi, rfl⟩ := h
  simpa using List.find?_some hi

theorem info_delta {procmem : ProcmemPriv} (hprevious : procmem.hasPrevious = true) {pid : Int32}
    {now : ProcEntry} (hnow : findInHash procmem procmem.tables.current pid = some now) :
    ∃ info, procmemGetPidInfo procmem pid = some info ∧
      (info.rssDeltaKb = 0 ↔ ¬ RssChanged procmem pid) := by
  refine ⟨result procmem now, by rw [procmemGetPidInfo, hnow]; rfl, ?_⟩
  rw [RssChanged, result, deltas, if_pos hprevious, findInHash_pid hnow, hnow]
  cases hbefore : findInHash procmem procmem.tables.previous pid with
  | none =>
    refine iff_of_true rfl ?_
    rintro ⟨_, before, _, hsome, _⟩
    exact absurd hsome.symm (Option.some_ne_none before)
  | some before =>
    show now.rssKb - before.rssKb = 0 ↔ _
    rw [sub_eq_zero_iff]
    constructor
    · rintro hsame ⟨now', before', hnow', hbefore', hne⟩
      rw [← Option.some.inj hnow', ← Option.some.inj hbefore'] at hne
      exact hne hsame.symm
    · intro hnot
      by_contra hne
      exact hnot ⟨now, before, rfl, rfl, fun h => hne h.symm⟩

end Procmem

namespace Heapmon

open Procmem

/-! ## What heapmon takes from procmem -/

theorem listed_of_target {procmem : ProcmemPriv} {pid : Int32} (h : pid ∈ refreshTargets procmem) :
    ∃ e, (e ∈ procmem.growers ∨ e ∈ procmem.topRss) ∧ e.pid = pid := by
  have hgrowers : ∀ pid ∈ (procmemGetTopGrowers procmem (maxTargets / 2)).map (·.pid),
      ∃ e, (e ∈ procmem.growers ∨ e ∈ procmem.topRss) ∧ e.pid = pid := by
    intro pid hpid
    obtain ⟨e, he, rfl⟩ := List.mem_map.1 hpid
    exact ⟨e, .inl (List.mem_of_mem_take he), rfl⟩
  have hall : ∀ pid ∈ refreshTargets procmem,
      ∃ e, (e ∈ procmem.growers ∨ e ∈ procmem.topRss) ∧ e.pid = pid := by
    refine List.foldlRecOn (motive := fun targets => ∀ pid ∈ targets,
      ∃ e, (e ∈ procmem.growers ∨ e ∈ procmem.topRss) ∧ e.pid = pid) _ addTarget hgrowers ?_
    intro targets htargets e he pid hpid
    rw [addTarget] at hpid
    split at hpid
    · rcases List.mem_append.1 hpid with hpid | hpid
      · exact htargets pid hpid
      · rw [List.mem_singleton.1 hpid]
        exact ⟨e, .inr (List.mem_of_mem_take he), rfl⟩
    · exact htargets pid hpid
  exact hall pid h

/-- The pid, the RSS and its growth. -/
def HeapmonEntry.usage (e : HeapmonEntry) : Int32 × Int64 × Int64 := (e.pid, e.rssKb, e.rssDeltaKb)

/-- What a collection takes from procmem for a process. -/
def taken (procmem : ProcmemPriv) (pid : Int32) : Int32 × Int64 × Int64 :=
  let info := procmemGetPidInfo procmem pid
  (pid, (info.map (·.rssKb)).getD 0, (info.map (·.rssDeltaKb)).getD 0)

theorem scanTarget_usage {cycle : HeapCycle} {pid : Int32} {r : Reading}
    (hr : cycle.reading pid = some r) (priv : HeapmonPriv) :
    let next := scanTarget cycle.procmem cycle.sample priv pid
    ∃ e : HeapmonEntry, e.usage = taken cycle.procmem pid ∧
      next.slots = priv.slots.set priv.resultCount e ∧
      next.resultCount = priv.resultCount + 1 := by
  intro next
  simp only [next, scanTarget_read hr, reading_rssKb hr]
  exact ⟨_, rfl, rfl, trivial⟩

/-- The invariant of the loop, with what the results say of the RSS. -/
structure UsageScanning (procmem : ProcmemPriv) (before done : List Reading) (priv : HeapmonPriv) :
    Prop where
  scanning : DeltaScanning before done priv
  usage : priv.results.map HeapmonEntry.usage = done.map fun r => taken procmem r.pid

theorem UsageScanning.step {cycle : HeapCycle} {before done : List Reading} {priv : HeapmonPriv}
    (h : UsageScanning cycle.procmem before done priv) {pid : Int32} {r : Reading}
    (hr : cycle.reading pid = some r) (hroom : done.length < maxTargets) :
    UsageScanning cycle.procmem before (done ++ [r])
      (scanTarget cycle.procmem cycle.sample priv pid) := by
  obtain ⟨e, husage, hslots, hcount⟩ := scanTarget_usage hr priv
  refine ⟨h.scanning.step hr hroom, ?_⟩
  have hslot : priv.resultCount < priv.slots.length := by
    rw [h.scanning.count, h.scanning.length]
    exact hroom
  rw [results_set hslot hslots hcount, List.map_append, h.usage, List.map_append,
    List.map_singleton, List.map_singleton, husage, reading_pid hr]

theorem usage_run (run : List HeapCycle) (cycle : HeapCycle) :
    UsageScanning cycle.procmem (lastReadings run) cycle.readings
      (heapmonScan cycle.procmem cycle.sample (heapmonRun run)) := by
  have hstart : UsageScanning cycle.procmem (lastReadings run) [] {
      heapmonRun run with
      targets := refreshTargets cycle.procmem
      previous := (heapmonRun run).current
      current := []
      resultCount := 0 } :=
    ⟨⟨heapmonRun_current run, rfl, (after_run run).length, rfl, rfl⟩, rfl⟩
  exact heapmonScan_loop (P := UsageScanning cycle.procmem (lastReadings run)) hstart
    fun _ _ _ _ h hr hlt => h.step hr hlt

/-- Every entry that a collection leaves is of a process that it has measured, and has what procmem
says of it. -/
theorem usage_of_entry (run : List HeapCycle) (cycle : HeapCycle) {e : HeapmonEntry}
    (he : e ∈ (heapmonCollect cycle.procmem cycle.sample (heapmonRun run)).results) :
    e.pid ∈ refreshTargets cycle.procmem ∧ e.usage = taken cycle.procmem e.pid := by
  rw [heapmonCollect_results (after_run run) cycle] at he
  have hmem := List.mem_map_of_mem (f := HeapmonEntry.usage)
    ((Heapmon.sortResults_perm _).mem_iff.1 he)
  rw [(usage_run run cycle).usage] at hmem
  obtain ⟨r, hr, husage⟩ := List.mem_map.1 hmem
  have hpid : r.pid = e.pid := congrArg Prod.fst husage
  rw [← hpid]
  exact ⟨(readings_pids cycle).subset (List.mem_map_of_mem hr), husage.symm⟩

/-- What the two lists say of a process that procmem knows. -/
theorem listed_usage (qsort : Qsort) (run : List HeapCycle) (cycle : HeapCycle)
    {user usage : HeapmonEntry} {maxEntries : Nat} {info : ProcmemEntry}
    (huser : user ∈ (heapmonCollect cycle.procmem cycle.sample (heapmonRun run)).results)
    (husage : usage ∈ heapmonGetTopConsumers qsort cycle.procmem
      (heapmonCollect cycle.procmem cycle.sample (heapmonRun run)) maxEntries)
    (hpid : user.pid = usage.pid) (hinfo : procmemGetPidInfo cycle.procmem user.pid = some info) :
    (user.rssKb = info.rssKb ∧ user.rssDeltaKb = info.rssDeltaKb) ∧
      usage.rssKb = info.rssKb ∧
      usage.rssDeltaKb =
        if ∃ data ∈ (heapmonRun run).current, data.pid = user.pid then info.rssDeltaKb else 0 := by
  have htaken := (usage_of_entry run cycle huser).2
  rw [taken, hinfo] at htaken
  refine ⟨⟨congrArg (fun u => u.2.1) htaken, congrArg (fun u => u.2.2) htaken⟩, ?_⟩
  have husage := (qsort.perm _ _).mem_iff.1 (List.mem_of_mem_take husage)
  obtain ⟨cur, _, rfl⟩ := List.mem_map.1 husage
  have hcur : cur.pid = user.pid := hpid.symm
  have hprevious : (heapmonCollect cycle.procmem cycle.sample (heapmonRun run)).previous =
      (heapmonRun run).current :=
    (scanning_run run cycle).previous.trans (heapmonRun_current run).symm
  have hfind : ((heapmonRun run).current.find? fun prev => prev.pid = user.pid).isSome ↔
      ∃ data ∈ (heapmonRun run).current, data.pid = user.pid := by
    simp [List.find?_isSome]
  simp only [consumer, hcur, hinfo, hprevious, hfind, Option.map_some, Option.getD_some, true_and]

end Heapmon

namespace Memleak

open Procmem Heapmon

/-! ## Runs -/

def memleakRun (qsort : Qsort) (run : List MemleakFiles) : MemleakPriv :=
  Run.state (memleakCollect qsort) memleakInit run

theorem memleakRun_snoc (qsort : Qsort) (run : List MemleakFiles) (files : MemleakFiles) :
    memleakRun qsort (run ++ [files]) = memleakCollect qsort (memleakRun qsort run) files := by
  rw [memleakRun, Run.state_append]
  rfl

/-- procmem and heapmon are where runs of their own have brought them. -/
theorem memleakRun_parts (qsort : Qsort) (run : List MemleakFiles) :
    (∃ dirs, (memleakRun qsort run).procmem = procmemRun qsort dirs) ∧
      ∃ cycles, (memleakRun qsort run).heapmon = heapmonRun cycles := by
  induction run using List.reverseRecOn with
  | nil => exact ⟨⟨[], rfl⟩, ⟨[], rfl⟩⟩
  | append_singleton run files ih =>
    obtain ⟨⟨dirs, hprocmem⟩, ⟨cycles, hheapmon⟩⟩ := ih
    rw [memleakRun_snoc]
    let procmem := procmemCollect qsort (memleakRun qsort run).procmem files.dir
    refine ⟨⟨dirs ++ [files.dir], ?_⟩, ⟨cycles ++ [⟨procmem, files.heaps⟩], ?_⟩⟩
    · rw [procmemRun, List.foldl_append, ← procmemRun, ← hprocmem]
      rfl
    · rw [heapmonRun, Run.state_append, ← heapmonRun, ← hheapmon]
      rfl

/-- **A process that is listed twice** has the same values in both lists exactly when heapmon
measured it in the collection before as well, or its RSS has not changed. -/
theorem listed_twice_iff (qsort : Qsort) (run : List MemleakFiles) (files : MemleakFiles)
    (user usage : HeapmonEntry)
    (huser : user ∈ heapmonGetEntries (memleakRun qsort (run ++ [files])).heapmon 10)
    (husage : usage ∈ heapmonGetTopConsumers qsort (memleakRun qsort (run ++ [files])).procmem
      (memleakRun qsort (run ++ [files])).heapmon 10)
    (hpid : user.pid = usage.pid) :
    user.rssKb = usage.rssKb ∧ user.rssDeltaKb = usage.rssDeltaKb ↔
      (∃ data ∈ (memleakRun qsort run).heapmon.current, data.pid = user.pid) ∨
        ¬ RssChanged (procmemCollect qsort (memleakRun qsort run).procmem files.dir) user.pid := by
  obtain ⟨⟨dirs, hprocmem⟩, ⟨cycles, hheapmon⟩⟩ := memleakRun_parts qsort run
  have hstate : memleakRun qsort (run ++ [files]) = memleakCollect qsort _ files :=
    memleakRun_snoc qsort run files
  let cycle : HeapCycle := {
    procmem := procmemCollect qsort (memleakRun qsort run).procmem files.dir
    sample := files.heaps }
  have huser : user ∈ (heapmonCollect cycle.procmem cycle.sample (heapmonRun cycles)).results := by
    rw [hstate] at huser
    rw [← hheapmon]
    exact List.mem_of_mem_take huser
  have husage : usage ∈ heapmonGetTopConsumers qsort cycle.procmem
      (heapmonCollect cycle.procmem cycle.sample (heapmonRun cycles)) 10 := by
    rw [hstate] at husage
    rw [← hheapmon]
    exact husage
  obtain ⟨listed, hlisted, hlistedPid⟩ := listed_of_target (usage_of_entry cycles cycle huser).1
  obtain ⟨now, hnow⟩ : ∃ now, findInHash cycle.procmem cycle.procmem.tables.current user.pid =
      some now := by
    rw [← hlistedPid]
    simp only [cycle, hprocmem] at hlisted ⊢
    exact find_of_listed qsort dirs files.dir hlisted
  obtain ⟨info, hinfo, hunchanged⟩ := info_delta rfl hnow
  obtain ⟨⟨huserRss, huserDelta⟩, husageRss, husageDelta⟩ :=
    listed_usage qsort cycles cycle huser husage hpid hinfo
  rw [huserRss, husageRss, huserDelta, husageDelta, ← hheapmon, ← hunchanged]
  split_ifs with hmeasured
  · exact iff_of_true ⟨rfl, rfl⟩ (.inl hmeasured)
  · rw [or_iff_right hmeasured]
    exact and_iff_right rfl

/-! ## A process that comes among the largest -/

/-- A scan of processes that all have the same small heap, and nothing else. -/
def scanOf (processes : List (Int32 × Int64)) : MemleakFiles where
  dir := some (processes.map fun (pid, kb) =>
    { pid, vmRss := kb, vmData := kb, cmdline := none, comm := none })
  slabs := none
  slabsBuf := []
  heaps _ := {
    start := 0
    smaps := some [.data (CStr.lit "55d0-55f1 rw-p [heap]\nRss: 5 kB\n").bytes]
    cmdline := none
    comm := none
    stack := [] }
  memory := none
  memoryBuf := []

/-- Six processes are larger than the last one. -/
def crowded : MemleakFiles :=
  scanOf [(1, 900), (2, 900), (3, 900), (4, 900), (5, 900), (6, 900), (7, 100)]

/-- The first of them is gone, and the last one has grown. -/
def grown : MemleakFiles :=
  scanOf [(2, 900), (3, 900), (4, 900), (5, 900), (6, 900), (7, 200)]

theorem grown_listed :
    let priv := memleakRun .insertion ([crowded] ++ [grown])
    (∃ user ∈ heapmonGetEntries priv.heapmon 10, user.usage = (7, 200, 100)) ∧
      ∃ usage ∈ heapmonGetTopConsumers .insertion priv.procmem priv.heapmon 10,
        usage.usage = (7, 200, 0) := by
  decide +kernel

theorem listed_twice_iff_grown :
    ∃ user usage : HeapmonEntry, user.pid = 7 ∧
      (user.rssKb = usage.rssKb ∧ user.rssDeltaKb = usage.rssDeltaKb ↔
        (∃ data ∈ (memleakRun .insertion [crowded]).heapmon.current, data.pid = user.pid) ∨
          ¬ RssChanged (procmemCollect .insertion (memleakRun .insertion [crowded]).procmem
            grown.dir) user.pid) := by
  obtain ⟨⟨user, huser, huserIs⟩, ⟨usage, husage, husageIs⟩⟩ := grown_listed
  have huserPid : user.pid = 7 := congrArg Prod.fst huserIs
  have husagePid : usage.pid = 7 := congrArg Prod.fst husageIs
  exact ⟨user, usage, huserPid, listed_twice_iff .insertion [crowded] grown user usage huser husage
    (huserPid.trans husagePid.symm)⟩

/-- Its growth is under `user_leaks` only. -/
theorem listed_twice_differs :
    ¬ ∀ (qsort : Qsort) (run : List MemleakFiles) (files : MemleakFiles)
        (user usage : HeapmonEntry),
      user ∈ heapmonGetEntries (memleakRun qsort (run ++ [files])).heapmon 10 →
      usage ∈ heapmonGetTopConsumers qsort (memleakRun qsort (run ++ [files])).procmem
        (memleakRun qsort (run ++ [files])).heapmon 10 →
      user.pid = usage.pid →
      user.rssKb = usage.rssKb ∧ user.rssDeltaKb = usage.rssDeltaKb := by
  intro hall
  obtain ⟨⟨user, huser, huserIs⟩, ⟨usage, husage, husageIs⟩⟩ := grown_listed
  have huserPid : user.pid = 7 := congrArg Prod.fst huserIs
  have husagePid : usage.pid = 7 := congrArg Prod.fst husageIs
  have hsame := (hall .insertion [crowded] grown user usage huser husage
    (huserPid.trans husagePid.symm)).2
  have huserDelta : user.rssDeltaKb = 100 := congrArg (fun u => u.2.2) huserIs
  have husageDelta : usage.rssDeltaKb = 0 := congrArg (fun u => u.2.2) husageIs
  rw [huserDelta, husageDelta] at hsame
  exact absurd hsame (by decide)

end Memleak

end Qmem
