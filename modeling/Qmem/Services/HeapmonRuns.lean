import Qmem.Lib.FirstSeen
import Qmem.Lib.Run
import Qmem.Services.Heapmon

/-!
# What heapmon takes for the first values

The results are ranked by how far a process's RSS has come since it was first scanned. The table
of first values has 48 entries, knows pids only and never forgets one. So the values are the right
ones as long as no pid comes to stand for another process, and no more than 48 are ever scanned.

Main results: `heapmon_baselines_right`, and `sortResults_right` for the order of the results.
-/

namespace Qmem

open CLib FirstSeen

namespace Heapmon

/-- What one scan learns of one process. -/
structure Reading where
  pid : Int32
  start : UInt64
  heapSizeKb : Int64
  heapRssKb : Int64
  heapPdKb : Int64
  rssKb : Int64
deriving DecidableEq

/-- The process. -/
def Reading.process (r : Reading) : Int32 × UInt64 := (r.pid, r.start)

/-- Its entry in the table. -/
def Reading.data (r : Reading) : HeapData where
  pid := r.pid
  heapSizeKb := r.heapSizeKb
  heapRssKb := r.heapRssKb
  heapPdKb := r.heapPdKb
  rssKb := r.rssKb

/-- One collection: what procmem has at the time, and what is to be found of each process. -/
structure HeapCycle where
  procmem : Procmem.ProcmemPriv
  sample : Int32 → HeapSample

def HeapCycle.reading (cycle : HeapCycle) (pid : Int32) : Option Reading :=
  (parseHeapSmaps (cycle.sample pid).smaps (cycle.sample pid).stack).map fun s => {
    pid
    start := (cycle.sample pid).start
    heapSizeKb := s.sizeKb
    heapRssKb := s.rssKb
    heapPdKb := s.pdKb
    rssKb := ((Procmem.procmemGetPidInfo cycle.procmem pid).map (·.rssKb)).getD 0 }

/-- The targets whose mappings could be read. -/
def HeapCycle.readings (cycle : HeapCycle) : List Reading :=
  (refreshTargets cycle.procmem).filterMap cycle.reading

/-- Everything a run has scanned, the earliest first. -/
def sightings (run : List HeapCycle) : List Reading := run.flatMap HeapCycle.readings

def heapmonRun (run : List HeapCycle) : HeapmonPriv :=
  Run.state (fun priv cycle => heapmonCollect cycle.procmem cycle.sample priv) heapmonInit run

/-- The pid, the RSS and the heap's, each with its first value. -/
def HeapmonEntry.report (e : HeapmonEntry) : Int32 × Int64 × Int64 × Int64 × Int64 :=
  (e.pid, e.rssKb, e.initialRssKb, e.heapRssKb, e.initialHeapRssKb)

/-- The first scan of the process of `r`. -/
def firstScan (seen : List Reading) (r : Reading) : Reading :=
  (seen.find? fun r₀ => r₀.process = r.process).getD r

/-- What should be reported of a process. -/
def expected (seen : List Reading) (r : Reading) : Int32 × Int64 × Int64 × Int64 × Int64 :=
  (r.pid, r.rssKb, (firstScan seen r).rssKb, r.heapRssKb, (firstScan seen r).heapRssKb)

/-- What has been scanned fits into the table: no pid stands for two processes, and there are no
more pids than entries. -/
structure Fits (seen : List Reading) : Prop where
  same : ∀ r ∈ seen, ∀ r' ∈ seen, r.pid = r'.pid → r.process = r'.process
  room : (seen.map Reading.pid).dedup.length ≤ maxTargets * 4

theorem Fits.of_subset {seen more : List Reading} (h : Fits more) (hsub : seen ⊆ more) :
    Fits seen :=
  ⟨fun r hr r' hr' => h.same r (hsub hr) r' (hsub hr'),
    Nat.le_trans (dedup_length_mono Reading.pid hsub) h.room⟩

/-! ## One target more -/

theorem reading_pid {cycle : HeapCycle} {pid : Int32} {r : Reading}
    (h : cycle.reading pid = some r) : r.pid = pid := by
  rw [HeapCycle.reading, Option.map_eq_some_iff] at h
  obtain ⟨s, -, rfl⟩ := h
  rfl

/-- The RSS is procmem's. -/
theorem reading_rssKb {cycle : HeapCycle} {pid : Int32} {r : Reading}
    (h : cycle.reading pid = some r) :
    r.rssKb = ((Procmem.procmemGetPidInfo cycle.procmem pid).map (·.rssKb)).getD 0 := by
  rw [HeapCycle.reading, Option.map_eq_some_iff] at h
  obtain ⟨s, -, rfl⟩ := h
  rfl

theorem findOrCreateInitial_eq {priv : HeapmonPriv} {table : List Reading}
    (h : priv.initial = table.map Reading.data) (r : Reading) :
    findOrCreateInitial priv r.data =
      ({ priv with
        initial := (findOrCreate Reading.pid (maxTargets * 4) table r).1.map Reading.data },
      (findOrCreate Reading.pid (maxTargets * 4) table r).2.map Reading.data) := by
  have hcreate : findOrCreateInitial priv r.data =
      ({ priv with initial := (findOrCreate HeapData.pid (maxTargets * 4) priv.initial r.data).1 },
      (findOrCreate HeapData.pid (maxTargets * 4) priv.initial r.data).2) := by
    rw [findOrCreateInitial, findOrCreate]
    cases priv.initial.find? fun init => init.pid = r.data.pid with
    | some init => rfl
    | none =>
      by_cases hroom : priv.initial.length < maxTargets * 4
      · simp only [if_pos hroom]
      · simp only [if_neg hroom]
  rw [hcreate, h, findOrCreate_map (show ∀ r : Reading, r.data.pid = r.pid from fun _ => rfl)]

/-- Only the first values change. -/
theorem findOrCreateInitial_frame (priv : HeapmonPriv) (data : HeapData) :
    (findOrCreateInitial priv data).1 =
      { priv with initial := (findOrCreateInitial priv data).1.initial } := by
  rw [findOrCreateInitial]
  split
  · rfl
  · split <;> rfl

/-- What the body of the loop does for a process whose mappings could be read. -/
theorem scanTarget_read {cycle : HeapCycle} {pid : Int32} {r : Reading}
    (hr : cycle.reading pid = some r) (priv : HeapmonPriv) :
    scanTarget cycle.procmem cycle.sample priv pid = { priv with
      initial := (findOrCreateInitial priv r.data).1.initial
      current := priv.current ++ [{ r.data with rssKb := 0 }]
      slots := priv.slots.set priv.resultCount {
        pid
        cmd := readCmd (cycle.sample pid) ((priv.slots[priv.resultCount]?.map (·.cmd)).getD [])
        heapSizeKb := r.heapSizeKb
        heapRssKb := r.heapRssKb
        heapPrivateDirtyKb := r.heapPdKb
        rssKb := r.rssKb
        rssDeltaKb :=
          ((Procmem.procmemGetPidInfo cycle.procmem pid).map (·.rssDeltaKb)).getD 0
        heapRssDeltaKb :=
          ((findPrevious priv pid).map fun prev => r.heapRssKb - prev.heapRssKb).getD 0
        heapPdDeltaKb :=
          ((findPrevious priv pid).map fun prev => r.heapPdKb - prev.heapPdKb).getD 0
        initialRssKb := ((findOrCreateInitial priv r.data).2.map (·.rssKb)).getD r.rssKb
        initialHeapRssKb :=
          ((findOrCreateInitial priv r.data).2.map (·.heapRssKb)).getD r.heapRssKb }
      resultCount := priv.resultCount + 1 } := by
  rw [HeapCycle.reading, Option.map_eq_some_iff] at hr
  obtain ⟨s, hs, rfl⟩ := hr
  have hframe := findOrCreateInitial_frame priv {
    pid
    heapSizeKb := s.sizeKb
    heapRssKb := s.rssKb
    heapPdKb := s.pdKb
    rssKb := ((Procmem.procmemGetPidInfo cycle.procmem pid).map (·.rssKb)).getD 0 }
  simp only [scanTarget, hs]
  rw [hframe]
  rfl

/-- And what its result says against the first values. -/
theorem scanTarget_reading {cycle : HeapCycle} {pid : Int32} {r : Reading}
    (hr : cycle.reading pid = some r) {priv : HeapmonPriv} {table : List Reading}
    (h : priv.initial = table.map Reading.data) :
    let found := findOrCreate Reading.pid (maxTargets * 4) table r
    let init := found.2.getD r
    let next := scanTarget cycle.procmem cycle.sample priv pid
    ∃ e : HeapmonEntry,
      e.report = (r.pid, r.rssKb, init.rssKb, r.heapRssKb, init.heapRssKb) ∧
      next.initial = found.1.map Reading.data ∧
      next.slots = priv.slots.set priv.resultCount e ∧
      next.resultCount = priv.resultCount + 1 := by
  intro found init next
  have hfound := findOrCreateInitial_eq h r
  have hpid : r.pid = pid := reading_pid hr
  simp only [next, scanTarget_read hr, hfound]
  refine ⟨_, ?_, rfl, rfl, trivial⟩
  simp only [HeapmonEntry.report, init, found, hpid]
  cases (findOrCreate Reading.pid (maxTargets * 4) table _).2 with
  | none => rfl
  | some init => rfl

theorem scanTarget_skip {cycle : HeapCycle} {pid : Int32} (hr : cycle.reading pid = none)
    (priv : HeapmonPriv) : scanTarget cycle.procmem cycle.sample priv pid = priv := by
  rw [HeapCycle.reading, Option.map_eq_none_iff] at hr
  simp only [scanTarget, hr]

theorem firstScan_append {seen : List Reading} {r : Reading} (hr : r ∈ seen)
    (more : List Reading) : firstScan (seen ++ more) r = firstScan seen r := by
  rw [firstScan, firstScan, List.find?_append]
  cases hfind : seen.find? fun r₀ => r₀.process = r.process with
  | some r₀ => rfl
  | none => exact absurd (decide_eq_true rfl) (List.find?_eq_none.1 hfind r hr)

theorem expected_append {seen : List Reading} {r : Reading} (hr : r ∈ seen)
    (more : List Reading) : expected (seen ++ more) r = expected seen r := by
  rw [expected, expected, firstScan_append hr]

/-- The table answers with the first scan of the process. -/
theorem findOrCreate_firstScan {seen : List Reading} {r : Reading} (hfits : Fits (seen ++ [r])) :
    ((findOrCreate Reading.pid (maxTargets * 4)
      (record Reading.pid (maxTargets * 4) [] seen) r).2).getD r = firstScan (seen ++ [r]) r := by
  have hlast : r ∈ seen ++ [r] := List.mem_append_right _ (List.mem_singleton_self r)
  rw [findOrCreate_first hfits.room, firstScan,
    find?_key_eq fun t ht => ⟨hfits.same t ht r hlast, congrArg Prod.fst⟩]

/-- The invariant of a scan. -/
structure Scanning (seen done : List Reading) (priv : HeapmonPriv) : Prop where
  initial : priv.initial =
    (record Reading.pid (maxTargets * 4) [] (seen ++ done)).map Reading.data
  length : priv.slots.length = maxTargets
  count : priv.resultCount = done.length
  entries : Fits (seen ++ done) →
    priv.results.map HeapmonEntry.report = done.map (expected (seen ++ done))

/-- A result written behind the others. -/
theorem results_set {priv next : HeapmonPriv} {e : HeapmonEntry}
    (hroom : priv.resultCount < priv.slots.length)
    (hslots : next.slots = priv.slots.set priv.resultCount e)
    (hcount : next.resultCount = priv.resultCount + 1) : next.results = priv.results ++ [e] := by
  rw [HeapmonPriv.results, hslots, hcount, List.take_add_one, List.getElem?_set_self hroom,
    List.take_set_of_le (Nat.le_refl _)]
  rfl

theorem Scanning.step {seen done : List Reading} {priv : HeapmonPriv}
    (h : Scanning seen done priv) {cycle : HeapCycle} {pid : Int32} {r : Reading}
    (hr : cycle.reading pid = some r) (hroom : done.length < maxTargets) :
    Scanning seen (done ++ [r]) (scanTarget cycle.procmem cycle.sample priv pid) := by
  obtain ⟨e, hreport, hinitial, hslots, hcount⟩ := scanTarget_reading hr h.initial
  refine ⟨?_, ?_, ?_, fun hfits => ?_⟩
  · rw [hinitial, ← List.append_assoc, record_append]
  · rw [hslots, List.length_set, h.length]
  · rw [hcount, h.count, List.length_append, List.length_singleton]
  · have hbefore : Fits (seen ++ done) := by
      rw [← List.append_assoc] at hfits
      exact hfits.of_subset (List.subset_append_left _ _)
    have hold : done.map (expected (seen ++ (done ++ [r]))) =
        done.map (expected (seen ++ done)) := by
      refine List.map_congr_left fun r' hr' => ?_
      rw [← List.append_assoc, expected_append (List.mem_append_right _ hr')]
    have hnew : e.report = expected (seen ++ (done ++ [r])) r := by
      rw [← List.append_assoc] at hfits ⊢
      rw [hreport, findOrCreate_firstScan hfits, expected]
    have hslot : priv.resultCount < priv.slots.length := by
      rw [h.count, h.length]
      exact hroom
    rw [results_set hslot hslots hcount, List.map_append, h.entries hbefore, List.map_append, hold,
      List.map_singleton, List.map_singleton, hnew]

/-- What one target keeps, as long as there is room for it, the whole loop keeps. -/
theorem scanLoop {cycle : HeapCycle} {P : List Reading → HeapmonPriv → Prop}
    (hstep : ∀ done priv pid r, P done priv → cycle.reading pid = some r →
      done.length < maxTargets →
      P (done ++ [r]) (scanTarget cycle.procmem cycle.sample priv pid))
    {done : List Reading} {priv : HeapmonPriv} (h : P done priv) (targets : List Int32)
    (hroom : done.length + targets.length ≤ maxTargets) :
    P (done ++ targets.filterMap cycle.reading)
      (targets.foldl (scanTarget cycle.procmem cycle.sample) priv) := by
  induction targets generalizing done priv with
  | nil => simpa using h
  | cons pid targets ih =>
    rw [List.length_cons] at hroom
    rw [List.foldl_cons]
    cases hr : cycle.reading pid with
    | none =>
      rw [List.filterMap_cons_none hr, scanTarget_skip hr]
      exact ih h (by omega)
    | some r =>
      rw [List.filterMap_cons_some hr, List.append_cons]
      refine ih (hstep done priv pid r h hr (by omega)) ?_
      rw [List.length_append, List.length_singleton]
      omega

/-! ## Whole runs -/

theorem addTarget_length {targets : List Int32} (h : targets.length ≤ maxTargets)
    (e : Procmem.ProcmemEntry) : (addTarget targets e).length ≤ maxTargets := by
  rw [addTarget]
  split
  · case isTrue hadd =>
    rw [List.length_append, List.length_singleton]
    exact hadd.2
  · exact h

theorem refreshTargets_length (procmem : Procmem.ProcmemPriv) :
    (refreshTargets procmem).length ≤ maxTargets := by
  have hgrowers : ((Procmem.procmemGetTopGrowers procmem (maxTargets / 2)).map
      (·.pid)).length ≤ maxTargets := by
    rw [List.length_map, Procmem.procmemGetTopGrowers, List.length_take]
    exact Nat.le_trans (Nat.min_le_left _ _) (by decide)
  exact List.foldlRecOn (motive := fun targets => targets.length ≤ maxTargets) _ addTarget
    hgrowers fun targets h e _ => addTarget_length h e

/-- And so does the whole scan, from where the loop starts. -/
theorem heapmonScan_loop {cycle : HeapCycle} {P : List Reading → HeapmonPriv → Prop}
    {priv : HeapmonPriv}
    (hstart : P [] { priv with
      targets := refreshTargets cycle.procmem
      previous := priv.current
      current := []
      resultCount := 0 })
    (hstep : ∀ done priv pid r, P done priv → cycle.reading pid = some r →
      done.length < maxTargets →
      P (done ++ [r]) (scanTarget cycle.procmem cycle.sample priv pid)) :
    P cycle.readings (heapmonScan cycle.procmem cycle.sample priv) := by
  have hroom := refreshTargets_length cycle.procmem
  exact scanLoop hstep hstart _ (by rw [List.length_nil]; omega)

theorem sightings_append (run : List HeapCycle) (cycle : HeapCycle) :
    sightings (run ++ [cycle]) = sightings run ++ cycle.readings := by
  rw [sightings, sightings, List.flatMap_append, List.flatMap_singleton]

/-- The invariant of a run. -/
structure After (seen : List Reading) (priv : HeapmonPriv) : Prop where
  initial : priv.initial = (record Reading.pid (maxTargets * 4) [] seen).map Reading.data
  length : priv.slots.length = maxTargets

/-- What the loop makes of a collection. -/
theorem After.scanning {seen : List Reading} {priv : HeapmonPriv} (h : After seen priv)
    (cycle : HeapCycle) :
    Scanning seen cycle.readings (heapmonScan cycle.procmem cycle.sample priv) := by
  have hstart : Scanning seen [] {
      priv with
      targets := refreshTargets cycle.procmem
      previous := priv.current
      current := []
      resultCount := 0 } := by
    refine ⟨?_, h.length, rfl, fun _ => rfl⟩
    rw [List.append_nil]
    exact h.initial
  exact heapmonScan_loop (P := Scanning seen) hstart fun _ _ _ _ h hr hlt => h.step hr hlt

theorem results_length {seen done : List Reading} {priv : HeapmonPriv}
    (h : Scanning seen done priv) (hdone : done.length ≤ maxTargets) :
    priv.results.length = priv.resultCount := by
  rw [HeapmonPriv.results, List.length_take, h.count, h.length]
  exact Nat.min_eq_left hdone

theorem readings_length (cycle : HeapCycle) : cycle.readings.length ≤ maxTargets :=
  Nat.le_trans (List.length_filterMap_le _ _) (refreshTargets_length _)

/-- What the loops of the sort leave. -/
theorem sortResults_eq (results : List HeapmonEntry) :
    sortResults results = ExchangeSort.sort (fun ej ei => ej.change > ei.change) results :=
  ExchangeSort.loops_eq_sort _ results

theorem sortResults_perm (results : List HeapmonEntry) : (sortResults results).Perm results := by
  rw [sortResults_eq]
  exact ExchangeSort.sort_perm _ results

theorem sortResults_ranked (results : List HeapmonEntry) :
    (sortResults results).Pairwise fun e e' => e'.change.toInt ≤ e.change.toInt := by
  have hbefore (ej ei : HeapmonEntry) :
      decide (ej.change > ei.change) = true ↔ ei.change.toInt < ej.change.toInt := by
    rw [decide_eq_true_eq, gt_iff_lt, Int64.lt_iff_toInt_lt]
  rw [sortResults_eq]
  exact ExchangeSort.sort_sorted hbefore results

/-- The results are those of the scan, sorted. -/
theorem heapmonCollect_results {seen : List Reading} {priv : HeapmonPriv} (h : After seen priv)
    (cycle : HeapCycle) :
    (heapmonCollect cycle.procmem cycle.sample priv).results =
      sortResults (heapmonScan cycle.procmem cycle.sample priv).results := by
  have hlen := results_length (h.scanning cycle) (readings_length cycle)
  have hsort := (sortResults_perm
    (heapmonScan cycle.procmem cycle.sample priv).results).length_eq
  rw [sortResults_eq] at hsort ⊢
  exact List.take_left' (hsort.trans hlen)

theorem After.step {seen : List Reading} {priv : HeapmonPriv} (h : After seen priv)
    (cycle : HeapCycle) :
    After (seen ++ cycle.readings) (heapmonCollect cycle.procmem cycle.sample priv) := by
  have hscan := h.scanning cycle
  refine ⟨hscan.initial, ?_⟩
  have hlen := results_length hscan (readings_length cycle)
  have hcount := readings_length cycle
  rw [heapmonCollect, List.length_append, (ExchangeSort.sort_perm _ _).length_eq,
    List.length_drop, hlen, hscan.length, hscan.count]
  omega

/-- What one collection keeps, a whole run keeps. -/
theorem after_run (run : List HeapCycle) : After (sightings run) (heapmonRun run) := by
  induction run using List.reverseRecOn with
  | nil => exact ⟨rfl, rfl⟩
  | append_singleton run cycle ih =>
    rw [heapmonRun, Run.state_append, sightings_append]
    exact ih.step cycle

/-! ## What is reported -/

/-- What is reported of a collection: every process that was scanned, with the values of its first
scan, and those whose RSS has grown most since then first. -/
structure BaselinesRight (seen now : List Reading) (priv : HeapmonPriv) : Prop where
  entries : (priv.results.map HeapmonEntry.report).Perm (now.map (expected seen))
  ranked : priv.results.Pairwise fun e e' =>
    (e'.rssKb - e'.initialRssKb).toInt ≤ (e.rssKb - e.initialRssKb).toInt

/-- **heapmon's first values are right** in every state of a run that scans no more than 48 pids,
none of which stands for two processes. -/
theorem heapmon_baselines_right (run before : List HeapCycle) (cycle : HeapCycle)
    (hfits : Fits (sightings run)) (hbefore : before ++ [cycle] <+: run) :
    BaselinesRight (sightings (before ++ [cycle])) cycle.readings
      (heapmonRun (before ++ [cycle])) := by
  obtain ⟨rest, rfl⟩ := hbefore
  have hnow : Fits (sightings before ++ cycle.readings) := by
    have hrun : sightings (before ++ [cycle] ++ rest) =
        sightings (before ++ [cycle]) ++ sightings rest := List.flatMap_append
    rw [← sightings_append]
    rw [hrun] at hfits
    exact hfits.of_subset (List.subset_append_left _ _)
  have hafter := after_run before
  have hscan := hafter.scanning cycle
  have hresults := heapmonCollect_results hafter cycle
  rw [heapmonRun, Run.state_append]
  rw [Run.state_cons, Run.state_nil]
  refine ⟨?_, ?_⟩
  · rw [← heapmonRun, hresults, sightings_append, ← hscan.entries hnow]
    exact (sortResults_perm _).map _
  · rw [← heapmonRun, hresults]
    exact sortResults_ranked _

/-! ## Results of any number -/

/-- By how much the RSS of a process has grown since it was first scanned. -/
def HeapmonEntry.growth (e : HeapmonEntry) : Int := e.rssKb.toInt - e.initialRssKb.toInt

/-- An `int64_t` has room for the number. -/
def FitsInt64 (n : Int) : Prop := -2 ^ 63 ≤ n ∧ n < 2 ^ 63

theorem change_toInt {e : HeapmonEntry} (h : FitsInt64 e.growth) : e.change.toInt = e.growth := by
  obtain ⟨hmin, hmax⟩ := h
  rw [HeapmonEntry.change, Int64.toInt_sub]
  exact Int.bmod_eq_of_le (by simpa [HeapmonEntry.growth] using hmin)
    (by simpa [HeapmonEntry.growth] using hmax)

/-- **The sort of `heapmon_collect`** rearranges the results, those that grew most first. -/
theorem sortResults_right (results : List HeapmonEntry)
    (hfits : ∀ e ∈ results, FitsInt64 e.growth) :
    (sortResults results).Perm results ∧
      (sortResults results).Pairwise fun e e' => e'.growth ≤ e.growth := by
  have hperm := sortResults_perm results
  have hchange {e : HeapmonEntry} (he : e ∈ sortResults results) : e.change.toInt = e.growth :=
    change_toInt (hfits e (hperm.mem_iff.1 he))
  refine ⟨hperm, (sortResults_ranked results).imp_of_mem fun he he' hle => ?_⟩
  rwa [hchange he, hchange he'] at hle

/-- A process first scanned with an RSS of 100. -/
def grownTo (pid : Int32) (rssKb : Int64) : HeapmonEntry where
  pid := pid
  cmd := []
  heapSizeKb := 0
  heapRssKb := 0
  heapPrivateDirtyKb := 0
  rssKb := rssKb
  rssDeltaKb := 0
  heapRssDeltaKb := 0
  heapPdDeltaKb := 0
  initialRssKb := 100
  initialHeapRssKb := 0

theorem sortResults_right_three :
    (sortResults [grownTo 1 90, grownTo 2 300, grownTo 3 100]).Perm
        [grownTo 1 90, grownTo 2 300, grownTo 3 100] ∧
      (sortResults [grownTo 1 90, grownTo 2 300, grownTo 3 100]).Pairwise fun e e' =>
        e'.growth ≤ e.growth := by
  refine sortResults_right _ fun e he => ?_
  rw [List.mem_cons, List.mem_cons, List.mem_singleton] at he
  obtain rfl | rfl | rfl := he
  · exact ⟨by decide, by decide⟩
  · exact ⟨by decide, by decide⟩
  · exact ⟨by decide, by decide⟩

/-- The targets after a scan that found one process. -/
theorem refreshTargets_one (qsort : Qsort) {procmem : Procmem.ProcmemPriv}
    {dir : Option (List Procmem.ProcSample)} {e : Procmem.ProcmemEntry}
    (h : (Procmem.procmemScan procmem dir).changes = [e]) :
    refreshTargets (Procmem.procmemCollect qsort procmem dir) = [e.pid] := by
  simp only [refreshTargets, Procmem.procmemGetTopGrowers, Procmem.procmemGetTopRss,
    Procmem.procmemCollect, h, Qsort.sort_singleton]
  by_cases hgrows : 0 < e.rssDeltaKb
  · simp [hgrows, maxTargets, Procmem.topN, addTarget]
  · simp [hgrows, maxTargets, Procmem.topN, addTarget]

/-- A process with that RSS, as procmem finds it. -/
def procSample (rssKb : Int64) : Procmem.ProcSample where
  pid := 7
  vmRss := rssKb
  vmData := 0
  cmdline := none
  comm := none

/-- What procmem has after two scans that each found it alone. -/
def procmemTwice (rssKb rssKb' : Int64) : Procmem.ProcmemPriv :=
  Procmem.procmemCollect .merge
    (Procmem.procmemCollect .merge Procmem.procmemInit (some [procSample rssKb]))
    (some [procSample rssKb'])

/-- A collection that finds the process to have these mappings. -/
def heapCycle (procmem : Procmem.ProcmemPriv) (start : UInt64) (smaps : String) : HeapCycle where
  procmem
  sample _ := {
    start
    smaps := some [.data (CStr.lit smaps).bytes]
    cmdline := none
    comm := none
    stack := [] }

theorem refreshTargets_twice (rssKb rssKb' : Int64)
    (h : (Procmem.procmemScan (Procmem.procmemCollect .merge Procmem.procmemInit
      (some [procSample rssKb])) (some [procSample rssKb'])).changes.map (·.pid) = [7]) :
    refreshTargets (procmemTwice rssKb rssKb') = [7] := by
  obtain ⟨e, he, hpid⟩ := List.map_eq_singleton_iff.1 h
  rw [procmemTwice, refreshTargets_one .merge he, hpid]

def heapRun (start : UInt64) : List HeapCycle := [
  heapCycle (procmemTwice 20 30) 1 "55d0-55f1 rw-p [heap]\nRss: 5 kB\n",
  heapCycle (procmemTwice 30 70) start "55d0-55f1 rw-p [heap]\nRss: 8 kB\n"]

theorem heapRun_sightings (start : UInt64) : sightings (heapRun start) = [
    { pid := 7, start := 1, heapSizeKb := 0, heapRssKb := 5, heapPdKb := 0, rssKb := 30 },
    { pid := 7, start, heapSizeKb := 0, heapRssKb := 8, heapPdKb := 0, rssKb := 70 }] := by
  simp only [sightings, heapRun, heapCycle, HeapCycle.readings, List.flatMap_cons,
    refreshTargets_twice 20 30 (by decide), refreshTargets_twice 30 70 (by decide)]
  rfl

theorem heapmon_baselines_right_twice :
    BaselinesRight (sightings (heapRun 1)) (heapRun 1)[1].readings (heapmonRun (heapRun 1)) := by
  refine heapmon_baselines_right (heapRun 1) (heapRun 1).dropLast (heapRun 1)[1] ?_
    (List.prefix_refl _)
  rw [heapRun_sightings]
  exact ⟨by decide, by decide⟩

/-- The pid is given to another process, which had the larger values from its start: growth is
reported that there was not. -/
theorem heapmon_baselines_wrong :
    (heapmonRun (heapRun 2)).results.map HeapmonEntry.report = [(7, 70, 30, 8, 5)] ∧
      ¬ BaselinesRight (sightings (heapRun 2)) (heapRun 2)[1].readings
        (heapmonRun (heapRun 2)) := by
  have hreports : (heapmonRun (heapRun 2)).results.map HeapmonEntry.report =
      [(7, 70, 30, 8, 5)] := by
    simp only [heapmonRun, heapRun, heapCycle, Run.state_cons, Run.state_nil, heapmonCollect,
      heapmonScan, refreshTargets_twice 20 30 (by decide), refreshTargets_twice 30 70 (by decide)]
    decide
  refine ⟨hreports, fun h => ?_⟩
  have hnow : (heapRun 2)[1].readings = [
      { pid := 7, start := 2, heapSizeKb := 0, heapRssKb := 8, heapPdKb := 0, rssKb := 70 }] := by
    show (heapCycle _ _ _).readings = _
    simp only [heapCycle, HeapCycle.readings, refreshTargets_twice 30 70 (by decide)]
    rfl
  have hperm := h.entries
  rw [hreports, hnow, heapRun_sightings, List.map_singleton, List.singleton_perm] at hperm
  exact absurd hperm (by decide)

end Heapmon

end Qmem
