import Qmem.Daemon.ConfigFile
import Qmem.Services.HeapmonRuns
import Qmem.Services.ProcmemDelta
import Qmem.Services.Slabinfo

/-!
# The thresholds of the reports

The options of `[thresholds]` say which changes are worth reporting, and how long the lists may
get. The services are given the configuration when they start, but they do not look at it: their
thresholds are constants. So those of a file are kept as long as they are no stricter.

Main result: `thresholds_kept_iff`.
-/

namespace Qmem

open CLib

/-! ## Thresholds -/

/-- The least changes to report, and the lengths of the lists. -/
structure Thresholds where
  procMinDeltaKb : Int
  slabMinDeltaBytes : Int
  procTopN : Int
  slabTopN : Int
  heapScanTopN : Int

/-- The services that report by thresholds. -/
structure ReportServices where
  procmem : Procmem.ProcmemPriv
  slabinfo : Slabinfo.SlabinfoPriv
  heapmon : Heapmon.HeapmonPriv

/-- What the services report keeps to these thresholds. -/
structure Thresholds.Kept (t : Thresholds) (s : ReportServices) : Prop where
  procMinDelta : ∀ e ∈ s.procmem.growers ++ s.procmem.shrinkers,
    t.procMinDeltaKb ≤ |e.rssDeltaKb.toInt|
  slabMinDelta : ∀ e ∈ s.slabinfo.growers ++ s.slabinfo.shrinkers,
    t.slabMinDeltaBytes ≤ |e.deltaBytes.toInt|
  procTop : ∀ es ∈ [s.procmem.growers, s.procmem.shrinkers, s.procmem.topRss],
    (es.length : Int) ≤ t.procTopN
  slabTop : ∀ es ∈ [s.slabinfo.growers, s.slabinfo.shrinkers], (es.length : Int) ≤ t.slabTopN
  heapScanTop : (s.heapmon.results.length : Int) ≤ t.heapScanTopN

/-- `t` is no stricter than `t'`. -/
structure Thresholds.Looser (t t' : Thresholds) : Prop where
  procMinDelta : t.procMinDeltaKb ≤ t'.procMinDeltaKb
  slabMinDelta : t.slabMinDeltaBytes ≤ t'.slabMinDeltaBytes
  procTop : t'.procTopN ≤ t.procTopN
  slabTop : t'.slabTopN ≤ t.slabTopN
  heapScanTop : t'.heapScanTopN ≤ t.heapScanTopN

theorem Thresholds.Kept.of_looser {t t' : Thresholds} {s : ReportServices} (h : t'.Kept s)
    (hloose : t.Looser t') : t.Kept s where
  procMinDelta e he := hloose.procMinDelta.trans (h.procMinDelta e he)
  slabMinDelta e he := hloose.slabMinDelta.trans (h.slabMinDelta e he)
  procTop es hes := (h.procTop es hes).trans hloose.procTop
  slabTop es hes := (h.slabTop es hes).trans hloose.slabTop
  heapScanTop := h.heapScanTop.trans hloose.heapScanTop

def Config.thresholds (cfg : Config) : Thresholds where
  procMinDeltaKb := cfg.procMinDeltaKb.toInt
  slabMinDeltaBytes := 1024 * cfg.slabMinDeltaKb.toInt
  procTopN := cfg.procTopN.toInt
  slabTopN := cfg.slabTopN.toInt
  heapScanTopN := cfg.heapScanTopN.toInt

/-- The constants of the services. A process is reported for any change, and of a service that is
not enabled there is nothing. -/
def builtinThresholds (heapEnabled : Bool) : Thresholds where
  procMinDeltaKb := 1
  slabMinDeltaBytes := Slabinfo.minDeltaBytes.toInt
  procTopN := Procmem.topN
  slabTopN := Slabinfo.topN
  heapScanTopN := if heapEnabled then Heapmon.maxTargets else 0

/-! ## Runs -/

/-- The three `init` functions: none looks at the configuration. -/
def servicesInit (_cfg : Config) : ReportServices where
  procmem := Procmem.procmemInit
  slabinfo := Slabinfo.slabinfoInit
  heapmon := Heapmon.heapmonInit

/-- The turn of one service, with what it finds. -/
inductive ServiceTurn where
  | procmem (dir : Option (List Procmem.ProcSample))
  | slabinfo (file : ProcFile) (buf : Bytes)
  | heapmon (sample : Int32 → Heapmon.HeapSample)

/-- The service is collected, if it is enabled: the first two always are. -/
def serviceTurn (qsort : Qsort) (heapEnabled : Bool) (s : ReportServices) :
    ServiceTurn → ReportServices
  | .procmem dir => { s with procmem := Procmem.procmemCollect qsort s.procmem dir }
  | .slabinfo file buf =>
    { s with slabinfo := (Slabinfo.slabinfoCollect qsort s.slabinfo file buf).1 }
  | .heapmon sample =>
    if heapEnabled then
      { s with heapmon := Heapmon.heapmonCollect s.procmem sample s.heapmon }
    else s

section

variable (qsort : Qsort) (heapEnabled : Bool) (s : ReportServices)

@[simp] theorem procmem_procTurn (dir : Option (List Procmem.ProcSample)) :
    (serviceTurn qsort heapEnabled s (.procmem dir)).procmem =
      Procmem.procmemCollect qsort s.procmem dir := rfl

@[simp] theorem procmem_slabTurn (file : ProcFile) (buf : Bytes) :
    (serviceTurn qsort heapEnabled s (.slabinfo file buf)).procmem = s.procmem := rfl

@[simp] theorem procmem_heapTurn (sample : Int32 → Heapmon.HeapSample) :
    (serviceTurn qsort heapEnabled s (.heapmon sample)).procmem = s.procmem := by
  cases heapEnabled <;> rfl

@[simp] theorem slabinfo_procTurn (dir : Option (List Procmem.ProcSample)) :
    (serviceTurn qsort heapEnabled s (.procmem dir)).slabinfo = s.slabinfo := rfl

@[simp] theorem slabinfo_slabTurn (file : ProcFile) (buf : Bytes) :
    (serviceTurn qsort heapEnabled s (.slabinfo file buf)).slabinfo =
      (Slabinfo.slabinfoCollect qsort s.slabinfo file buf).1 := rfl

@[simp] theorem slabinfo_heapTurn (sample : Int32 → Heapmon.HeapSample) :
    (serviceTurn qsort heapEnabled s (.heapmon sample)).slabinfo = s.slabinfo := by
  cases heapEnabled <;> rfl

end

/-- Turns in any order. -/
def servicesRun (qsort : Qsort) (heapEnabled : Bool) (cfg : Config) (turns : List ServiceTurn) :
    ReportServices :=
  Run.state (serviceTurn qsort heapEnabled) (servicesInit cfg) turns

/-! ## What a turn reports -/

namespace Procmem

variable (qsort : Qsort) (priv : ProcmemPriv) (dir : Option (List ProcSample))

theorem collect_changes {e : ProcmemEntry} (he : e ∈ (procmemCollect qsort priv dir).growers ++
    (procmemCollect qsort priv dir).shrinkers) :
    1 ≤ |e.rssDeltaKb.toInt| := by
  have hne : e.rssDeltaKb.toInt ≠ 0 := by
    rcases List.mem_append.1 he with he | he
    · have hgrows := (List.mem_filter.1 (List.mem_of_mem_take he)).2
      rw [decide_eq_true_eq, gt_iff_lt, Int64.lt_iff_toInt_lt, Int64.toInt_zero] at hgrows
      exact hgrows.ne'
    · have hshrinks := (List.mem_filter.1 (List.mem_of_mem_take he)).2
      rw [decide_eq_true_eq, Int64.lt_iff_toInt_lt, Int64.toInt_zero] at hshrinks
      exact hshrinks.ne
  exact Int.one_le_abs hne

theorem collect_lengths : ∀ es ∈ [(procmemCollect qsort priv dir).growers,
    (procmemCollect qsort priv dir).shrinkers, (procmemCollect qsort priv dir).topRss],
    es.length ≤ topN := by
  intro es hes
  simp only [List.mem_cons, List.not_mem_nil, or_false] at hes
  rcases hes with rfl | rfl | rfl <;> exact List.length_take_le _ _

end Procmem

namespace Slabinfo

theorem slabChange_min {previous : List SlabCacheInfo} {cur : SlabCacheInfo} {e : SlabEntry}
    (h : slabChange previous cur = some e) : minDeltaBytes.toInt ≤ |e.deltaBytes.toInt| := by
  rw [slabChange, Option.bind_eq_some_iff] at h
  obtain ⟨prev, -, h⟩ := h
  simp only [Option.ite_none_right_eq_some] at h
  obtain ⟨hmin, he⟩ := h
  rw [← Option.some.inj he]
  show minDeltaBytes.toInt ≤ |(cur.sizeBytes - prev.sizeBytes).toInt|
  generalize cur.sizeBytes - prev.sizeBytes = delta at hmin
  rw [ge_iff_le, Int64.le_iff_toInt_le] at hmin
  split at hmin
  · -- the smallest number is its own negation, so it is not among these
    have hneg : (-delta).toInt ≤ |delta.toInt| := by
      have hlow := delta.le_toInt
      have hhigh := delta.toInt_lt
      have habs := neg_le_abs delta.toInt
      have hnonneg := abs_nonneg delta.toInt
      rw [Int64.toInt_neg, Int.bmod_def]
      split <;> omega
    exact hmin.trans hneg
  · exact hmin.trans (le_abs_self _)

variable (qsort : Qsort) (priv : SlabinfoPriv) (file : ProcFile) (buf : Bytes)

/-- What a collection leaves in a list: its own selection, or what was there. -/
theorem collect_changes (hpriv : ∀ e ∈ priv.growers ++ priv.shrinkers,
    minDeltaBytes.toInt ≤ |e.deltaBytes.toInt|) {e : SlabEntry}
    (he : e ∈ (slabinfoCollect qsort priv file buf).1.growers ++
      (slabinfoCollect qsort priv file buf).1.shrinkers) :
    minDeltaBytes.toInt ≤ |e.deltaBytes.toInt| := by
  rw [slabinfoCollect] at he
  cases hparse : parseSlabinfo file buf with
  | none =>
    rw [hparse] at he
    exact hpriv e he
  | some current =>
    rw [hparse] at he
    cases hprev : priv.hasPrevious with
    | false => simp [hprev] at he
    | true =>
      simp only [hprev, if_true, List.mem_append] at he
      have hmem : e ∈ current.filterMap (slabChange priv.current) := by
        rcases he with he | he
        · exact (qsort.perm _ _).mem_iff.1 (List.mem_of_mem_filter (List.mem_of_mem_take he))
        · exact (qsort.perm _ _).mem_iff.1 ((qsort.perm _ _).mem_iff.1
            (List.mem_of_mem_filter (List.mem_of_mem_take he)))
      obtain ⟨cur, -, hchange⟩ := List.mem_filterMap.1 hmem
      exact slabChange_min hchange

/-- The second collection compares with the first. -/
theorem collect_twice {file file' : ProcFile} {buf buf' : Bytes} {before now : List SlabCacheInfo}
    (hbefore : parseSlabinfo file buf = some before) (hnow : parseSlabinfo file' buf' = some now) :
    (slabinfoCollect qsort (slabinfoCollect qsort slabinfoInit file buf).1 file' buf').1.growers =
      ((qsort.sort compareGrowers (now.filterMap (slabChange before))).filter
        fun e => e.deltaBytes > 0).take topN := by
  simp only [slabinfoCollect, hbefore, hnow, slabinfoInit, Bool.false_eq_true, if_false, if_true]

theorem collect_lengths (hpriv : ∀ es ∈ [priv.growers, priv.shrinkers], es.length ≤ topN) :
    ∀ es ∈ [(slabinfoCollect qsort priv file buf).1.growers,
      (slabinfoCollect qsort priv file buf).1.shrinkers], es.length ≤ topN := by
  rw [slabinfoCollect]
  cases parseSlabinfo file buf with
  | none => exact hpriv
  | some current =>
    intro es hes
    simp only [List.mem_cons, List.not_mem_nil, or_false] at hes
    split at hes
    · rcases hes with rfl | rfl <;> exact List.length_take_le _ _
    · rcases hes with rfl | rfl <;> exact Nat.zero_le _

end Slabinfo

namespace Heapmon

theorem collect_length {seen : List Reading} {priv : HeapmonPriv} (h : After seen priv)
    (cycle : HeapCycle) :
    (heapmonCollect cycle.procmem cycle.sample priv).results.length = cycle.readings.length := by
  have hscan := h.scanning cycle
  rw [heapmonCollect_results h, (Heapmon.sortResults_perm _).length_eq,
    results_length hscan (readings_length cycle), hscan.count]

/-- A result for every target, if all mappings can be read. -/
theorem readings_length_eq (cycle : HeapCycle)
    (h : ∀ pid, (parseHeapSmaps (cycle.sample pid).smaps (cycle.sample pid).stack).isSome = true) :
    cycle.readings.length = (refreshTargets cycle.procmem).length := by
  rw [HeapCycle.readings, List.length_filterMap_eq_countP, List.countP_eq_length]
  intro pid _
  rw [HeapCycle.reading, Option.isSome_map]
  exact h pid

end Heapmon

/-! ## Every run -/

/-- The invariant of a run. -/
structure ReportServices.Running (heapEnabled : Bool) (s : ReportServices) : Prop where
  kept : (builtinThresholds heapEnabled).Kept s
  heapmon : ∃ seen, Heapmon.After seen s.heapmon

theorem running_init (heapEnabled : Bool) (cfg : Config) :
    (servicesInit cfg).Running heapEnabled where
  kept := {
    procMinDelta e he := absurd he List.not_mem_nil
    slabMinDelta e he := absurd he List.not_mem_nil
    procTop es hes := by
      simp only [servicesInit, Procmem.procmemInit, List.mem_cons, List.not_mem_nil, or_false,
        or_self] at hes
      rw [hes]
      exact Int.natCast_nonneg _
    slabTop es hes := by
      simp only [servicesInit, Slabinfo.slabinfoInit, List.mem_cons, List.not_mem_nil, or_false,
        or_self] at hes
      rw [hes]
      exact Int.natCast_nonneg _
    heapScanTop := by
      show ((0 : Nat) : Int) ≤ (builtinThresholds heapEnabled).heapScanTopN
      cases heapEnabled <;> decide }
  heapmon := ⟨[], rfl, rfl⟩

theorem ReportServices.Running.turn {heapEnabled : Bool} {s : ReportServices}
    (h : s.Running heapEnabled) (qsort : Qsort) (turn : ServiceTurn) :
    (serviceTurn qsort heapEnabled s turn).Running heapEnabled := by
  cases turn with
  | procmem dir =>
    refine ⟨{ h.kept with procMinDelta := ?_, procTop := ?_ }, h.heapmon⟩
    · exact fun e he => Procmem.collect_changes qsort s.procmem dir he
    · exact fun es hes => Int.ofNat_le.2 (Procmem.collect_lengths qsort s.procmem dir es hes)
  | slabinfo file buf =>
    refine ⟨{ h.kept with slabMinDelta := ?_, slabTop := ?_ }, h.heapmon⟩
    · exact fun e he => Slabinfo.collect_changes qsort s.slabinfo file buf h.kept.slabMinDelta he
    · exact fun es hes => Int.ofNat_le.2 (Slabinfo.collect_lengths qsort s.slabinfo file buf
        (fun es hes => Int.ofNat_le.1 (h.kept.slabTop es hes)) es hes)
  | heapmon sample =>
    obtain ⟨seen, hseen⟩ := h.heapmon
    rw [serviceTurn]
    cases heapEnabled with
    | false => exact h
    | true =>
      have hnext := hseen.step { procmem := s.procmem, sample }
      refine ⟨{ h.kept with heapScanTop := ?_ }, _, hnext⟩
      have hlength := Heapmon.collect_length hseen { procmem := s.procmem, sample }
      have hle := Heapmon.readings_length { procmem := s.procmem, sample }
      rw [← hlength] at hle
      exact Int.ofNat_le.2 hle

/-- What one turn keeps, a whole run keeps. -/
theorem running_run (qsort : Qsort) (heapEnabled : Bool) (cfg : Config)
    (turns : List ServiceTurn) :
    (servicesRun qsort heapEnabled cfg turns).Running heapEnabled :=
  Run.invariant (running_init heapEnabled cfg) (fun _ turn h => h.turn qsort turn) turns

/-! ## A run that uses them up -/

/-- Twelve processes, with the RSS of the first scan and of the second. -/
def procTable : List (Int32 × Int64 × Int64) := [
  (11, 95, 101), (12, 97, 102), (13, 99, 103), (14, 101, 104), (15, 103, 105), (16, 105, 106),
  (17, 108, 107), (18, 110, 108), (19, 112, 109), (20, 114, 110), (21, 116, 111), (22, 118, 112)]

def memSample (pid : Int32) (rssKb : Int64) : Procmem.ProcSample where
  pid
  vmRss := rssKb
  vmData := 0
  cmdline := none
  comm := none

/-- The first scan finds another process as well, before these. -/
def firstScan : Option (List Procmem.ProcSample) :=
  some (memSample 2 50 :: procTable.map fun (pid, before, _) => memSample pid before)

/-- They have all moved up. -/
def secondScan : Option (List Procmem.ProcSample) :=
  some (procTable.map fun (pid, _, now) => memSample pid now)

/-- Twenty caches of these numbers of pages. -/
def slabText (pages : Nat → Nat) : Bytes :=
  (List.range 20).flatMap fun i =>
    UInt8.ofNat (0x61 + i) :: ((CStr.lit " 1 ").bytes ++ decNat (pages i) ++
      (CStr.lit " 4096\n").bytes)

def slabFile (pages : Nat → Nat) : ProcFile := some [.data (slabText pages)]

/-- Every process has mappings that can be read. -/
def anyHeap (_pid : Int32) : Heapmon.HeapSample where
  start := 0
  smaps := some []
  cmdline := none
  comm := none
  stack := []

theorem anyHeap_readable (pid : Int32) :
    (Heapmon.parseHeapSmaps (anyHeap pid).smaps (anyHeap pid).stack).isSome = true := rfl

/-- Two cycles, but for the last turn. -/
def fullTurns : List ServiceTurn := [
  .procmem firstScan, .slabinfo (slabFile fun _ => 0) [], .heapmon anyHeap,
  .procmem secondScan, .slabinfo (slabFile fun i => 128 + i) []]

def fullRun : List ServiceTurn := fullTurns ++ [.heapmon anyHeap]

section

variable (qsort : Qsort)

def procScans : List (Option (List Procmem.ProcSample)) := [firstScan, secondScan]

/-- procmem after the run. -/
def procRun : Procmem.ProcmemPriv := Procmem.procmemRun qsort procScans

/-- What the second scan records. -/
def scanChanges : List Procmem.ProcmemEntry :=
  (Procmem.procmemScan (Procmem.procmemRun qsort (procScans.take 1)) secondScan).changes

def procChanges : List (Procmem.Reading × Int64 × Int64) :=
  Procmem.recordedChanges (Procmem.readBefore procScans 1) (Procmem.readings secondScan)

theorem scanChanges_eq :
    (scanChanges qsort).map Procmem.ProcmemEntry.change = procChanges := by
  have hok : ∀ dir ∈ procScans, Procmem.ScanOk dir := by
    intro dir hdir
    simp only [procScans, List.mem_cons, List.not_mem_nil, or_false] at hdir
    rcases hdir with rfl | rfl <;> exact ⟨by decide, by decide⟩
  exact Procmem.run_changes hok qsort rfl

/-- The processes come in the order of their growth. -/
theorem procRun_growers :
    (procRun qsort).growers.map Procmem.ProcmemEntry.change = procChanges.take 6 := by
  have hsort : (qsort.sort Procmem.compareRssGrower (scanChanges qsort)).map
      Procmem.ProcmemEntry.change = procChanges := by
    rw [Procmem.compareRssGrower, compareDescending_int64]
    exact qsort.map_sort Procmem.ProcmemEntry.change (.of_eq (scanChanges_eq qsort))
      (show procChanges.Pairwise fun a b => b.2.1.toInt < a.2.1.toInt by decide)
  have hgrowers : (procRun qsort).growers =
      ((qsort.sort Procmem.compareRssGrower (scanChanges qsort)).filter
        ((fun c => decide (c.2.1 > 0)) ∘ Procmem.ProcmemEntry.change)).take Procmem.topN := rfl
  rw [hgrowers, List.map_take, ← List.filter_map, hsort]
  decide

/-- And in the opposite order of their RSS. -/
theorem procRun_topRss :
    (procRun qsort).topRss.map Procmem.ProcmemEntry.change = procChanges.reverse := by
  have hperm : ((qsort.sort Procmem.compareRssShrinker (qsort.sort Procmem.compareRssGrower
      (scanChanges qsort))).map Procmem.ProcmemEntry.change).Perm procChanges.reverse := by
    refine .trans (((qsort.perm _ _).trans (qsort.perm _ _)).map _) ?_
    rw [scanChanges_eq]
    exact (List.reverse_perm _).symm
  have hsort : (qsort.sort Procmem.compareRssAbs (qsort.sort Procmem.compareRssShrinker
      (qsort.sort Procmem.compareRssGrower (scanChanges qsort)))).map
        Procmem.ProcmemEntry.change = procChanges.reverse := by
    rw [Procmem.compareRssAbs, compareDescending_int64]
    exact qsort.map_sort Procmem.ProcmemEntry.change hperm
      (show procChanges.reverse.Pairwise fun a b => b.1.rssKb.toInt < a.1.rssKb.toInt by decide)
  have htop : (procRun qsort).topRss = (qsort.sort Procmem.compareRssAbs
      (qsort.sort Procmem.compareRssShrinker (qsort.sort Procmem.compareRssGrower
        (scanChanges qsort)))).take Procmem.topN := rfl
  rw [htop, List.map_take, hsort]
  decide

/-- The targets of heapmon, from what procmem reports. -/
theorem refreshTargets_eq {priv : Procmem.ProcmemPriv}
    {growers topRss : List (Procmem.Reading × Int64 × Int64)}
    (hgrowers : priv.growers.map Procmem.ProcmemEntry.change = growers)
    (htop : priv.topRss.map Procmem.ProcmemEntry.change = topRss) :
    Heapmon.refreshTargets priv =
      ((topRss.take (Heapmon.maxTargets / 2)).map fun c => c.1.pid).foldl
        (fun targets pid => if pid ∉ targets ∧ targets.length < Heapmon.maxTargets then
          targets ++ [pid] else targets)
        ((growers.take (Heapmon.maxTargets / 2)).map fun c => c.1.pid) := by
  rw [← hgrowers, ← htop, ← List.map_take, ← List.map_take, List.map_map, List.map_map,
    List.foldl_map]
  rfl

theorem procRun_targets :
    (Heapmon.refreshTargets (procRun qsort)).length = Heapmon.maxTargets := by
  rw [refreshTargets_eq (procRun_growers qsort) (procRun_topRss qsort)]
  decide

/-- The growth of the caches between the two files. -/
def slabDeltas : List Int64 := (List.range 20).map fun i => Int64.ofNat ((128 + i) * 4096)

theorem slab_changes : ∃ before now,
    Slabinfo.parseSlabinfo (slabFile fun _ => 0) [] = some before ∧
      Slabinfo.parseSlabinfo (slabFile fun i => 128 + i) [] = some now ∧
      (now.filterMap (Slabinfo.slabChange before)).map Slabinfo.SlabEntry.deltaBytes =
        slabDeltas := by
  have hbefore : (Slabinfo.parseSlabinfo (slabFile fun _ => 0) []).isSome = true := by
    decide +kernel
  have hnow : (Slabinfo.parseSlabinfo (slabFile fun i => 128 + i) []).isSome = true := by
    decide +kernel
  have hdeltas : (((Slabinfo.parseSlabinfo (slabFile fun i => 128 + i) []).getD []).filterMap
      (Slabinfo.slabChange ((Slabinfo.parseSlabinfo (slabFile fun _ => 0) []).getD []))).map
        Slabinfo.SlabEntry.deltaBytes = slabDeltas := by decide +kernel
  obtain ⟨before, hbefore⟩ := Option.isSome_iff_exists.1 hbefore
  obtain ⟨now, hnow⟩ := Option.isSome_iff_exists.1 hnow
  rw [hbefore, hnow] at hdeltas
  exact ⟨before, now, hbefore, hnow, hdeltas⟩

variable (heapEnabled : Bool) (cfg : Config)

theorem fullTurns_procmem :
    (servicesRun qsort heapEnabled cfg fullTurns).procmem = procRun qsort := by
  simp only [servicesRun, fullTurns, Run.state_cons, Run.state_nil, procmem_procTurn,
    procmem_slabTurn, procmem_heapTurn, procRun, Procmem.procmemRun, procScans, List.foldl_cons,
    List.foldl_nil, servicesInit]

theorem fullRun_procmem :
    (servicesRun qsort heapEnabled cfg fullRun).procmem = procRun qsort := by
  rw [servicesRun, fullRun, Run.state_append, Run.state_cons, Run.state_nil, procmem_heapTurn,
    ← servicesRun, fullTurns_procmem]

theorem fullRun_slabinfo :
    (servicesRun qsort heapEnabled cfg fullRun).slabinfo =
      (Slabinfo.slabinfoCollect qsort (Slabinfo.slabinfoCollect qsort Slabinfo.slabinfoInit
        (slabFile fun _ => 0) []).1 (slabFile fun i => 128 + i) []).1 := by
  simp only [servicesRun, fullRun, fullTurns, List.cons_append, List.nil_append, Run.state_cons,
    Run.state_nil, slabinfo_procTurn, slabinfo_slabTurn, slabinfo_heapTurn, servicesInit]

theorem slabRun_growers :
    (servicesRun qsort heapEnabled cfg fullRun).slabinfo.growers.map
      Slabinfo.SlabEntry.deltaBytes = slabDeltas.reverse := by
  obtain ⟨before, now, hbefore, hnow, hdeltas⟩ := slab_changes
  have hperm : ((now.filterMap (Slabinfo.slabChange before)).map
      Slabinfo.SlabEntry.deltaBytes).Perm slabDeltas.reverse := by
    rw [hdeltas]
    exact (List.reverse_perm _).symm
  have hsort : (qsort.sort Slabinfo.compareGrowers (now.filterMap
      (Slabinfo.slabChange before))).map Slabinfo.SlabEntry.deltaBytes = slabDeltas.reverse := by
    rw [Slabinfo.compareGrowers, compareDescending_int64]
    exact qsort.map_sort Slabinfo.SlabEntry.deltaBytes hperm
      (show slabDeltas.reverse.Pairwise fun a b => b.toInt < a.toInt by decide)
  have hgrowers : (servicesRun qsort heapEnabled cfg fullRun).slabinfo.growers =
      ((qsort.sort Slabinfo.compareGrowers (now.filterMap (Slabinfo.slabChange before))).filter
        ((fun d => decide (d > 0)) ∘ Slabinfo.SlabEntry.deltaBytes)).take Slabinfo.topN := by
    rw [fullRun_slabinfo, Slabinfo.collect_twice qsort hbefore hnow]
    rfl
  rw [hgrowers, List.map_take, ← List.filter_map, hsort]
  decide

theorem heapRun_length :
    (servicesRun qsort heapEnabled cfg fullRun).heapmon.results.length =
      if heapEnabled then Heapmon.maxTargets else 0 := by
  obtain ⟨seen, hseen⟩ := (running_run qsort heapEnabled cfg fullTurns).heapmon
  rw [servicesRun, fullRun, Run.state_append, ← servicesRun, Run.state_cons, Run.state_nil,
    serviceTurn, fullTurns_procmem]
  cases heapEnabled with
  | false => rfl
  | true =>
    have hlength := Heapmon.collect_length hseen { procmem := procRun qsort, sample := anyHeap }
    have hreadings := Heapmon.readings_length_eq {
      procmem := procRun qsort, sample := anyHeap } anyHeap_readable
    rw [hreadings, procRun_targets] at hlength
    exact hlength

/-- What keeps to thresholds in this run is no stricter than the constants. -/
theorem Thresholds.Kept.looser {t : Thresholds}
    (h : t.Kept (servicesRun qsort heapEnabled cfg fullRun)) :
    t.Looser (builtinThresholds heapEnabled) where
  procMinDelta := by
    have hmem : (procChanges.take 6)[5] ∈
        (procRun qsort).growers.map Procmem.ProcmemEntry.change := by
      rw [procRun_growers]
      exact List.getElem_mem _
    rw [← fullRun_procmem qsort heapEnabled cfg] at hmem
    obtain ⟨e, he, hchange⟩ := List.mem_map.1 hmem
    have hle := h.procMinDelta e (List.mem_append_left _ he)
    have hdelta : e.rssDeltaKb = 1 := congrArg (fun c => c.2.1) hchange
    rwa [hdelta] at hle
  slabMinDelta := by
    have hmem : Slabinfo.minDeltaBytes ∈ slabDeltas.reverse := by decide
    rw [← slabRun_growers qsort heapEnabled cfg] at hmem
    obtain ⟨e, he, hdelta⟩ := List.mem_map.1 hmem
    have hle := h.slabMinDelta e (List.mem_append_left _ he)
    rwa [hdelta] at hle
  procTop := by
    have htop := congrArg List.length (procRun_topRss qsort)
    rw [List.length_map, ← fullRun_procmem qsort heapEnabled cfg] at htop
    have hle := h.procTop _ (List.mem_cons_of_mem _ (List.mem_cons_of_mem _ List.mem_cons_self))
    rwa [htop] at hle
  slabTop := by
    have hlist := congrArg List.length (slabRun_growers qsort heapEnabled cfg)
    rw [List.length_map] at hlist
    have hle := h.slabTop _ List.mem_cons_self
    rwa [hlist] at hle
  heapScanTop := by
    have hlength := h.heapScanTop
    rw [heapRun_length] at hlength
    cases heapEnabled <;> exact hlength

/-- The thresholds that are always kept are those no stricter than the constants. -/
theorem kept_iff_looser (t : Thresholds) :
    (∀ turns : List ServiceTurn, t.Kept (servicesRun qsort heapEnabled cfg turns)) ↔
      t.Looser (builtinThresholds heapEnabled) := by
  constructor
  · exact fun h => (h fullRun).looser
  · exact fun h turns => (running_run qsort heapEnabled cfg turns).kept.of_looser h

end

/-! ## The thresholds of a file -/

/-- What a file gives, or the defaults. -/
def fileThresholds (file : Option Bytes) : Thresholds where
  procMinDeltaKb :=
    (givenTo "thresholds" "proc_min_delta_kb" (fun val => atoll val.bytes) file 1024).toInt
  slabMinDeltaBytes := 1024 *
    (givenTo "thresholds" "slab_min_delta_kb" (fun val => atoll val.bytes) file 512).toInt
  procTopN := (givenTo "thresholds" "proc_top_n" (fun val => atoi val.bytes) file 12).toInt
  slabTopN := (givenTo "thresholds" "slab_top_n" (fun val => atoi val.bytes) file 20).toInt
  heapScanTopN :=
    (givenTo "thresholds" "heap_scan_top_n" (fun val => atoi val.bytes) file 12).toInt

theorem thresholds_configLoad (file : Option Bytes) :
    (configLoad configInitDefaults file).thresholds = fileThresholds file := by
  obtain ⟨hproc, hslab, hprocTop, hslabTop, hheapTop⟩ :
      longSetting "thresholds" "proc_min_delta_kb" (·.procMinDeltaKb)
          ({ · with procMinDeltaKb := · }) ∈ configSettings ∧
        longSetting "thresholds" "slab_min_delta_kb" (·.slabMinDeltaKb)
          ({ · with slabMinDeltaKb := · }) ∈ configSettings ∧
        intSetting "thresholds" "proc_top_n" (·.procTopN)
          ({ · with procTopN := · }) ∈ configSettings ∧
        intSetting "thresholds" "slab_top_n" (·.slabTopN)
          ({ · with slabTopN := · }) ∈ configSettings ∧
        intSetting "thresholds" "heap_scan_top_n" (·.heapScanTopN)
          ({ · with heapScanTopN := · }) ∈ configSettings := by
    simp only [configSettings, configSections, List.flatMap_cons, List.flatMap_nil,
      List.cons_append, List.nil_append, List.mem_cons, true_or, or_true, and_self]
  rw [Config.thresholds, long_configLoad hproc, long_configLoad hslab, int_configLoad hprocTop,
    int_configLoad hslabTop, int_configLoad hheapTop]
  rfl

/-- **The thresholds of a file** are kept in every state of every run exactly when they are no
stricter than the constants of the services. -/
theorem thresholds_kept_iff (qsort : Qsort) (heapEnabled : Bool) (file : Option Bytes) :
    (∀ turns : List ServiceTurn, (configLoad configInitDefaults file).thresholds.Kept
        (servicesRun qsort heapEnabled (configLoad configInitDefaults file) turns)) ↔
      (fileThresholds file).Looser (builtinThresholds heapEnabled) := by
  rw [← thresholds_configLoad]
  exact kept_iff_looser qsort heapEnabled _ _

/-! ## The defaults -/

/-- A process whose RSS has grown by one kilobyte is reported, where the default asks for 1024. -/
theorem thresholds_not_kept :
    ¬ (configLoad configInitDefaults (some [])).thresholds.Kept
      (servicesRun .merge false (configLoad configInitDefaults (some [])) fullRun) := by
  intro h
  have hmin := h.looser.procMinDelta
  exact absurd hmin (by decide +kernel)

end Qmem
