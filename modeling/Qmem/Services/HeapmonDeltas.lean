import Qmem.Services.HeapmonRuns

/-!
# The heap deltas of heapmon

The targets of a cycle are the processes that grow most and, behind them, those with the largest
RSS that are not there yet; so there are at most twelve, and each of them once. A target whose
mappings cannot be read leaves no entry. The deltas are the differences to the entry that the
cycle before made for the process, and `heapmon_get_top_consumers` computes them a second time.

Main result: `heapmon_deltas_right`.
-/

namespace Qmem

open CLib

namespace Heapmon

/-- The entry of a process among the current ones. -/
def Reading.current (r : Reading) : HeapData := { r.data with rssKb := 0 }

/-- What is reported of a heap: its sizes, and the two deltas. -/
structure HeapReport where
  pid : Int32
  heapSizeKb : Int64
  heapRssKb : Int64
  heapPrivateDirtyKb : Int64
  heapRssDeltaKb : Int64
  heapPdDeltaKb : Int64

def HeapmonEntry.heap (e : HeapmonEntry) : HeapReport where
  pid := e.pid
  heapSizeKb := e.heapSizeKb
  heapRssKb := e.heapRssKb
  heapPrivateDirtyKb := e.heapPrivateDirtyKb
  heapRssDeltaKb := e.heapRssDeltaKb
  heapPdDeltaKb := e.heapPdDeltaKb

/-- The report of a process, after a cycle that read `before`. -/
def Reading.heap (before : List Reading) (r : Reading) : HeapReport :=
  let prev := before.find? fun prev => prev.pid = r.pid
  { pid := r.pid
    heapSizeKb := r.heapSizeKb
    heapRssKb := r.heapRssKb
    heapPrivateDirtyKb := r.heapPdKb
    heapRssDeltaKb := (prev.map fun prev => r.heapRssKb - prev.heapRssKb).getD 0
    heapPdDeltaKb := (prev.map fun prev => r.heapPdKb - prev.heapPdKb).getD 0 }

/-! ## The targets -/

theorem addTarget_nodup {targets : List Int32} (h : targets.Nodup) (e : Procmem.ProcmemEntry) :
    (addTarget targets e).Nodup := by
  rw [addTarget]
  split
  · case isTrue hadd =>
    rw [← List.concat_eq_append]
    exact h.concat hadd.1
  · exact h

/-- No process is a target twice. -/
theorem refreshTargets_nodup {procmem : Procmem.ProcmemPriv}
    (h : (procmem.growers.map (·.pid)).Nodup) : (refreshTargets procmem).Nodup := by
  have hgrowers : ((Procmem.procmemGetTopGrowers procmem (maxTargets / 2)).map (·.pid)).Nodup := by
    rw [Procmem.procmemGetTopGrowers, List.map_take]
    exact h.sublist (List.take_sublist _ _)
  exact List.foldlRecOn (motive := List.Nodup) _ addTarget hgrowers
    fun targets h e _ => addTarget_nodup h e

/-- The processes that were read are targets, in the same order. -/
theorem readings_pids (cycle : HeapCycle) :
    (cycle.readings.map Reading.pid).Sublist (refreshTargets cycle.procmem) := by
  rw [HeapCycle.readings]
  induction refreshTargets cycle.procmem with
  | nil => exact List.Sublist.refl _
  | cons pid targets ih =>
    cases hr : cycle.reading pid with
    | none =>
      rw [List.filterMap_cons_none hr]
      exact ih.cons pid
    | some r =>
      rw [List.filterMap_cons_some hr, List.map_cons, reading_pid hr]
      exact ih.cons_cons pid

/-! ## One target more -/

theorem find?_current (before : List Reading) (pid : Int32) :
    (before.map Reading.current).find? (fun prev => prev.pid = pid) =
      (before.find? fun prev => prev.pid = pid).map Reading.current := by
  rw [List.find?_map]
  rfl

/-- What the result of a process says against the cycle before. -/
theorem scanTarget_heap {cycle : HeapCycle} {pid : Int32} {r : Reading}
    (hr : cycle.reading pid = some r) {priv : HeapmonPriv} {before : List Reading}
    (h : priv.previous = before.map Reading.current) :
    let next := scanTarget cycle.procmem cycle.sample priv pid
    ∃ e : HeapmonEntry, e.heap = r.heap before ∧
      next.targets = priv.targets ∧
      next.previous = priv.previous ∧
      next.current = priv.current ++ [r.current] ∧
      next.slots = priv.slots.set priv.resultCount e ∧
      next.resultCount = priv.resultCount + 1 := by
  intro next
  have hpid : r.pid = pid := reading_pid hr
  simp only [next, scanTarget_read hr]
  refine ⟨_, ?_, trivial, trivial, rfl, rfl, trivial⟩
  simp only [HeapmonEntry.heap, Reading.heap, findPrevious, h, find?_current, hpid]
  cases before.find? fun prev => prev.pid = pid <;> rfl

/-- The invariant of a scan, after a cycle that read `before`. -/
structure DeltaScanning (before done : List Reading) (priv : HeapmonPriv) : Prop where
  previous : priv.previous = before.map Reading.current
  current : priv.current = done.map Reading.current
  length : priv.slots.length = maxTargets
  count : priv.resultCount = done.length
  entries : priv.results.map HeapmonEntry.heap = done.map (Reading.heap before)

theorem DeltaScanning.step {before done : List Reading} {priv : HeapmonPriv}
    (h : DeltaScanning before done priv) {cycle : HeapCycle} {pid : Int32} {r : Reading}
    (hr : cycle.reading pid = some r) (hroom : done.length < maxTargets) :
    DeltaScanning before (done ++ [r]) (scanTarget cycle.procmem cycle.sample priv pid) := by
  obtain ⟨e, hheap, -, hprevious, hcurrent, hslots, hcount⟩ := scanTarget_heap hr h.previous
  refine ⟨?_, ?_, ?_, ?_, ?_⟩
  · rw [hprevious, h.previous]
  · rw [hcurrent, h.current, List.map_append, List.map_singleton]
  · rw [hslots, List.length_set, h.length]
  · rw [hcount, h.count, List.length_append, List.length_singleton]
  · have hslot : priv.resultCount < priv.slots.length := by
      rw [h.count, h.length]
      exact hroom
    rw [results_set hslot hslots hcount, List.map_append, h.entries, List.map_append,
      List.map_singleton, List.map_singleton, hheap]

/-! ## Whole runs -/

/-- What the last cycle of a run read. -/
def lastReadings (run : List HeapCycle) : List Reading :=
  (run.getLast?.map HeapCycle.readings).getD []

/-- What the loop makes of a cycle. -/
theorem DeltaScanning.collect {before : List Reading} {priv : HeapmonPriv}
    (hcurrent : priv.current = before.map Reading.current)
    (hlength : priv.slots.length = maxTargets) (cycle : HeapCycle) :
    DeltaScanning before cycle.readings (heapmonScan cycle.procmem cycle.sample priv) := by
  have hstart : DeltaScanning before [] {
      priv with
      targets := refreshTargets cycle.procmem
      previous := priv.current
      current := []
      resultCount := 0 } := ⟨hcurrent, rfl, hlength, rfl, rfl⟩
  exact heapmonScan_loop (P := DeltaScanning before) hstart fun _ _ _ _ h hr hlt => h.step hr hlt

/-- After a run the current entries are those of its last cycle. -/
theorem heapmonRun_current (run : List HeapCycle) :
    (heapmonRun run).current = (lastReadings run).map Reading.current := by
  induction run using List.reverseRecOn with
  | nil => rfl
  | append_singleton run cycle ih =>
    have hscan := DeltaScanning.collect ih (after_run run).length cycle
    have hlast : lastReadings (run ++ [cycle]) = cycle.readings := by
      rw [lastReadings, List.getLast?_append_of_ne_nil _ (List.cons_ne_nil _ _)]
      rfl
    rw [hlast, ← hscan.current, heapmonRun, Run.state_append]
    rfl

/-- The scan of one cycle more. -/
theorem scanning_run (run : List HeapCycle) (cycle : HeapCycle) :
    DeltaScanning (lastReadings run) cycle.readings
      (heapmonScan cycle.procmem cycle.sample (heapmonRun run)) :=
  DeltaScanning.collect (heapmonRun_current run) (after_run run).length cycle

/-- The targets are not touched by the loop. -/
theorem heapmonScan_targets (cycle : HeapCycle) (priv : HeapmonPriv) :
    (heapmonScan cycle.procmem cycle.sample priv).targets = refreshTargets cycle.procmem := by
  have hkeep (s : HeapmonPriv) (pid : Int32) :
      (scanTarget cycle.procmem cycle.sample s pid).targets = s.targets := by
    cases hr : cycle.reading pid with
    | none => rw [scanTarget_skip hr]
    | some r => rw [scanTarget_read hr]
  exact List.foldlRecOn (motive := fun s : HeapmonPriv => s.targets = refreshTargets cycle.procmem)
    _ (scanTarget cycle.procmem cycle.sample) rfl fun s hs pid _ => (hkeep s pid).trans hs

/-! ## What is reported -/

/-- The heaps of a cycle that read `now`, after one that read `before`. -/
structure HeapsRight (before now : List Reading) (heaps : List HeapReport) : Prop where
  pids : (heaps.map HeapReport.pid).Perm (now.map Reading.pid)
  distinct : (heaps.map HeapReport.pid).Nodup
  present : ∀ e ∈ heaps, ∀ r ∈ now, r.pid = e.pid →
    e.heapSizeKb = r.heapSizeKb ∧ e.heapRssKb = r.heapRssKb ∧ e.heapPrivateDirtyKb = r.heapPdKb
  again : ∀ e ∈ heaps, ∀ r ∈ before, r.pid = e.pid →
    e.heapRssDeltaKb = e.heapRssKb - r.heapRssKb ∧
      e.heapPdDeltaKb = e.heapPrivateDirtyKb - r.heapPdKb
  anew : ∀ e ∈ heaps, (∀ r ∈ before, r.pid ≠ e.pid) → e.heapRssDeltaKb = 0 ∧ e.heapPdDeltaKb = 0

theorem HeapsRight.of_perm {before now : List Reading} {heaps : List HeapReport}
    (hbefore : (before.map Reading.pid).Nodup) (hnow : (now.map Reading.pid).Nodup)
    (h : heaps.Perm (now.map (Reading.heap before))) : HeapsRight before now heaps := by
  have hpids : (heaps.map HeapReport.pid).Perm (now.map Reading.pid) := by
    have hmap := h.map HeapReport.pid
    rwa [List.map_map] at hmap
  have hfrom (e : HeapReport) (he : e ∈ heaps) : ∃ r ∈ now, r.heap before = e :=
    List.mem_map.1 (h.mem_iff.1 he)
  refine ⟨hpids, hpids.nodup_iff.2 hnow, ?_, ?_, ?_⟩
  · intro e he r hr hpid
    obtain ⟨r', hr', rfl⟩ := hfrom e he
    obtain rfl : r = r' := List.inj_on_of_nodup_map hnow hr hr' hpid
    exact ⟨rfl, rfl, rfl⟩
  · intro e he r hr hpid
    obtain ⟨r', -, rfl⟩ := hfrom e he
    have hpid' : r.pid = r'.pid := hpid
    have hfind := FirstSeen.find?_of_nodup hbefore hr
    rw [hpid'] at hfind
    simp only [Reading.heap, hfind]
    exact ⟨rfl, rfl⟩
  · intro e he hnone
    obtain ⟨r', -, rfl⟩ := hfrom e he
    have hfind : before.find? (fun prev => prev.pid = r'.pid) = none := by
      rw [List.find?_eq_none]
      intro r hr
      have hne : r.pid ≠ r'.pid := hnone r hr
      simpa using hne
    simp only [Reading.heap, hfind]
    exact ⟨rfl, rfl⟩

/-- What `heapmon_get_top_consumers` computes of an entry. -/
theorem consumer_heap {priv : HeapmonPriv} {before : List Reading}
    (h : priv.previous = before.map Reading.current) (procmem : Procmem.ProcmemPriv)
    (r : Reading) : (consumer procmem priv r.current).heap = r.heap before := by
  have hpid : r.current.pid = r.pid := rfl
  simp only [consumer, HeapmonEntry.heap, Reading.heap, h, find?_current, hpid]
  cases before.find? fun prev => prev.pid = r.pid <;> rfl

/-- **heapmon's bounds and deltas**: in every cycle of every run, however many of the mappings
cannot be read, and whatever procmem has by the time when the consumers are asked for. -/
theorem heapmon_deltas_right (qsort : Qsort) (run : List HeapCycle) (cycle : HeapCycle)
    (hdistinct : ∀ c ∈ run ++ [cycle], (c.procmem.growers.map (·.pid)).Nodup ∧
      (c.procmem.topRss.map (·.pid)).Nodup) :
    let priv := heapmonRun (run ++ [cycle])
    ((heapmonScan cycle.procmem cycle.sample (heapmonRun run)).targets.length ≤ 12 ∧
      priv.targets.length ≤ 12 ∧ priv.current.length ≤ 12 ∧ priv.results.length ≤ 12) ∧
    HeapsRight (lastReadings run) cycle.readings (priv.results.map HeapmonEntry.heap) ∧
    ∀ procmem maxEntries, ∀ e ∈ heapmonGetTopConsumers qsort procmem priv maxEntries,
      ∃ e' ∈ priv.results, e'.heap = e.heap := by
  intro priv
  have hscan := scanning_run run cycle
  have hpriv : priv = heapmonCollect cycle.procmem cycle.sample (heapmonRun run) := by
    simp only [priv, heapmonRun, Run.state_append, Run.state_cons, Run.state_nil]
  have hresults : priv.results.Perm
      (heapmonScan cycle.procmem cycle.sample (heapmonRun run)).results := by
    rw [hpriv, heapmonCollect_results (after_run run) cycle]
    exact sortResults_perm _
  have hheaps := hresults.map HeapmonEntry.heap
  rw [hscan.entries] at hheaps
  have hread := readings_length cycle
  have hnodup (c : HeapCycle) (hc : c ∈ run ++ [cycle]) : (c.readings.map Reading.pid).Nodup :=
    (refreshTargets_nodup (hdistinct c hc).1).sublist (readings_pids c)
  refine ⟨⟨?_, ?_, ?_, ?_⟩, ?_, ?_⟩
  · rw [heapmonScan_targets]
    exact refreshTargets_length cycle.procmem
  · rw [hpriv]
    exact Nat.zero_le _
  · rw [hpriv]
    show (heapmonScan cycle.procmem cycle.sample (heapmonRun run)).current.length ≤ 12
    rw [hscan.current, List.length_map]
    exact hread
  · have hlen := hheaps.length_eq
    rw [List.length_map, List.length_map] at hlen
    rw [hlen]
    exact hread
  · refine HeapsRight.of_perm ?_ (hnodup cycle (by simp)) hheaps
    rw [lastReadings]
    cases hlast : run.getLast? with
    | none => exact List.nodup_nil
    | some c => exact hnodup c (List.mem_append_left _ (List.mem_of_getLast? hlast))
  · intro procmem maxEntries e he
    rw [hpriv] at he
    have hmem := (qsort.perm _ _).mem_iff.1 (List.mem_of_mem_take he)
    obtain ⟨cur, hcur, rfl⟩ := List.mem_map.1 hmem
    have hcurrent : cur ∈ (heapmonScan cycle.procmem cycle.sample (heapmonRun run)).current := hcur
    rw [hscan.current] at hcurrent
    obtain ⟨r, hr, rfl⟩ := List.mem_map.1 hcurrent
    have hheap : r.heap (lastReadings run) ∈ priv.results.map HeapmonEntry.heap :=
      hheaps.mem_iff.2 (List.mem_map_of_mem hr)
    obtain ⟨e', he', heq⟩ := List.mem_map.1 hheap
    refine ⟨e', he', ?_⟩
    rw [heq, consumer_heap]
    exact hscan.previous

/-- A process that procmem lists with the largest RSS. -/
def largeProcess (pid : Int32) : Procmem.ProcmemEntry where
  pid
  cmd := .lit "x"
  rssKb := 70
  dataKb := 0
  rssDeltaKb := 0
  dataDeltaKb := 0

/-- A cycle with two such processes; the mappings of the second cannot be read. -/
def holeCycle (smaps : String) : HeapCycle where
  procmem := { Procmem.procmemInit with topRss := [largeProcess 8, largeProcess 7] }
  sample pid := {
    start := 0
    smaps := if pid = 7 then some [.data (CStr.lit smaps).bytes] else none
    cmdline := none
    comm := none
    stack := [] }

theorem heapmon_deltas_right_hole :
    HeapsRight (lastReadings [holeCycle "55d0-55f1 rw-p [heap]\nRss: 5 kB\n"])
      (holeCycle "55d0-55f1 rw-p [heap]\nRss: 8 kB\n").readings
      ((heapmonRun ([holeCycle "55d0-55f1 rw-p [heap]\nRss: 5 kB\n"] ++
        [holeCycle "55d0-55f1 rw-p [heap]\nRss: 8 kB\n"])).results.map HeapmonEntry.heap) := by
  refine (heapmon_deltas_right .merge _ _ fun c hc => ?_).2.1
  simp only [List.cons_append, List.nil_append, List.mem_cons, List.not_mem_nil, or_false] at hc
  rcases hc with rfl | rfl <;> exact ⟨by decide, by decide⟩

end Heapmon

end Qmem
