import Qmem.Lib.FirstSeen
import Qmem.Lib.Run
import Qmem.Services.Fdmon

/-!
# What fdmon takes for the first count

A process is told from another by its pid and the time when it was started, but the table of first
counts knows pids only, and it keeps what it has. So its counts are the right ones as long as no
pid comes back and no more than 200 of them are ever seen.

Main result: `fdmon_baselines_right`.
-/

namespace Qmem

open CLib FirstSeen

namespace Fdmon

/-- What one scan learns of one process. -/
structure Reading where
  pid : Int32
  start : UInt64
  fdCount : Int32
deriving DecidableEq

/-- The process. -/
def Reading.process (r : Reading) : Int32 × UInt64 := (r.pid, r.start)

/-- Its entry in a table. -/
def Reading.data (r : Reading) : FdData := { pid := r.pid, fdCount := r.fdCount }

def FdSample.reading (p : FdSample) : Option Reading :=
  (countFds p).map fun count => { pid := p.pid, start := p.start, fdCount := count.1 }

/-- The processes whose descriptors could be counted. -/
def FdScan.readings (scan : FdScan) : List Reading := scan.procs.filterMap FdSample.reading

/-- The scans of a run, the latest first. -/
def history (run : List (Option FdScan)) : List (List Reading) :=
  (run.filterMap fun scan => scan.map FdScan.readings).reverse

def fdmonRun (qsort : Qsort) (run : List (Option FdScan)) : FdmonPriv :=
  Run.state (fun priv scan => (fdmonCollect qsort priv scan).1) fdmonInit run

/-- The pid, the count, the first count and the change. -/
def FdmonEntry.report (e : FdmonEntry) : Int32 × Int32 × Int32 × Int32 :=
  (e.pid, e.fdCount, e.initialFdCount, e.fdChange)

/-- What should be reported of a process, given the scans before. -/
def expected (earlier : List (List Reading)) (r : Reading) : Int32 × Int32 × Int32 × Int32 :=
  let initial := (first Reading.process r earlier).fdCount
  (r.pid, r.fdCount, initial, r.fdCount - initial)

/-- The entries that count as leaks. -/
def growing (es : List FdmonEntry) : List FdmonEntry := es.filter fun e => e.fdChange > 0

/-! ## One process more -/

theorem find?_data (table : List Reading) (pid : Int32) :
    (table.map Reading.data).find? (fun init => init.pid = pid) =
      (table.find? fun t => t.pid = pid).map Reading.data := by
  rw [List.find?_map]
  rfl

theorem findOrCreateInitial_eq {priv : FdmonPriv} {table : List Reading}
    (h : priv.initial = table.map Reading.data) (r : Reading) :
    findOrCreateInitial priv r.pid r.fdCount =
      ({ priv with
        initial := (findOrCreate Reading.pid (maxProcs * 2) table r).1.map Reading.data },
      (findOrCreate Reading.pid (maxProcs * 2) table r).2.map Reading.data) := by
  have hcreate (d : FdData) : findOrCreateInitial priv d.pid d.fdCount =
      ({ priv with initial := (findOrCreate FdData.pid (maxProcs * 2) priv.initial d).1 },
      (findOrCreate FdData.pid (maxProcs * 2) priv.initial d).2) := by
    rw [findOrCreateInitial, findOrCreate]
    cases priv.initial.find? fun init => init.pid = d.pid with
    | some init => rfl
    | none =>
      by_cases hroom : priv.initial.length < maxProcs * 2
      · simp only [if_pos hroom]
      · simp only [if_neg hroom]
  show findOrCreateInitial priv r.data.pid r.data.fdCount = _
  rw [hcreate, h, findOrCreate_map (show ∀ r : Reading, r.data.pid = r.pid from fun _ => rfl)]

/-- What the body of the loop does for a process whose descriptors could be counted. -/
theorem scanProc_reading (stack : Nat → Bytes) {s : Collecting} {p : FdSample} {r : Reading}
    (hr : p.reading = some r) {table : List Reading}
    (h : s.priv.initial = table.map Reading.data) :
    let found := findOrCreate Reading.pid (maxProcs * 2) table r
    let initial := (found.2.map Reading.fdCount).getD r.fdCount
    ∃ e : FdmonEntry, e.report = (r.pid, r.fdCount, initial, r.fdCount - initial) ∧
      (scanProc stack s p).priv.initial = found.1.map Reading.data ∧
      (scanProc stack s p).priv.summary = s.priv.summary.count e ∧
      (scanProc stack s p).allProcs = s.allProcs ++ [e] := by
  intro found initial
  rw [FdSample.reading, Option.map_eq_some_iff] at hr
  obtain ⟨⟨fdCount, types⟩, hcount, rfl⟩ := hr
  set priv : FdmonPriv :=
    if s.priv.current.length < maxProcs then
      { s.priv with current := s.priv.current ++ [{ pid := p.pid, fdCount }] }
    else s.priv with hpriv
  have hsame : priv.initial = table.map Reading.data ∧ priv.summary = s.priv.summary := by
    rw [hpriv]
    split
    · exact ⟨h, rfl⟩
    · exact ⟨h, rfl⟩
  have hinit := findOrCreateInitial_eq hsame.1 { pid := p.pid, start := p.start, fdCount }
  have hmap : (found.2.map Reading.data).map (·.fdCount) = found.2.map Reading.fdCount := by
    rw [Option.map_map]
    rfl
  simp only [scanProc, hcount, ← hpriv, hinit]
  refine ⟨_, ?_, rfl, by rw [hsame.2], rfl⟩
  simp only [FdmonEntry.report]
  rw [hmap]

/-- The invariant of a scan. -/
structure Scanning (earlier : List (List Reading)) (done : List Reading) (s : Collecting) :
    Prop where
  table : ∃ table, Records Reading.pid Reading.process earlier table ∧
    s.priv.initial = (record Reading.pid (maxProcs * 2) table done).map Reading.data
  entries : s.allProcs.map FdmonEntry.report = done.map (expected earlier)
  leaks : s.priv.summary.potentialLeaks = .ofNat (growing s.allProcs).length

theorem process_pid : ∀ r r' : Reading, r.process = r'.process → r.pid = r'.pid :=
  fun _ _ h => congrArg Prod.fst h

theorem growing_count (es : List FdmonEntry) (e : FdmonEntry) (summary : FdmonSummary)
    (h : summary.potentialLeaks = .ofNat (growing es).length) :
    (summary.count e).potentialLeaks = .ofNat (growing (es ++ [e])).length := by
  rw [FdmonSummary.count, growing, List.filter_append, List.length_append]
  split
  · case isTrue hgrows =>
    rw [h, growing, List.filter_cons_of_pos (by simpa using hgrows), Int32.ofNat_add]
    rfl
  · case isFalse hgrows =>
    rw [h, growing, List.filter_cons_of_neg (by simpa using hgrows)]
    rfl

theorem Scanning.step {earlier : List (List Reading)} {done rest : List Reading} {s : Collecting}
    (h : Scanning earlier done s) (stack : Nat → Bytes) {p : FdSample} {r : Reading}
    (hr : p.reading = some r)
    (hfresh : Fresh Reading.pid Reading.process (maxProcs * 2) earlier (done ++ r :: rest)) :
    Scanning earlier (done ++ [r]) (scanProc stack s p) := by
  obtain ⟨table, hrecords, htable⟩ := h.table
  obtain ⟨e, hreport, hinitial, hsummary, hprocs⟩ := scanProc_reading stack hr htable
  rw [hrecords.find process_pid hfresh] at hreport
  refine ⟨⟨table, hrecords, ?_⟩, ?_, ?_⟩
  · rw [hinitial, record_append]
  · rw [hprocs, List.map_append, List.map_append, h.entries, List.map_singleton, hreport]
    rfl
  · rw [hsummary, hprocs]
    exact growing_count _ e _ h.leaks

theorem scanProc_skip (stack : Nat → Bytes) (s : Collecting) {p : FdSample}
    (hr : p.reading = none) : scanProc stack s p = s := by
  rw [FdSample.reading, Option.map_eq_none_iff] at hr
  rw [scanProc, hr]

/-- The whole loop. -/
theorem Scanning.loop {earlier : List (List Reading)} {done : List Reading} {s : Collecting}
    (h : Scanning earlier done s) (stack : Nat → Bytes) (ps : List FdSample)
    (hfits : (done ++ ps.filterMap FdSample.reading).length ≤ maxProcs)
    (hfresh : Fresh Reading.pid Reading.process (maxProcs * 2) earlier
      (done ++ ps.filterMap FdSample.reading)) :
    Scanning earlier (done ++ ps.filterMap FdSample.reading) (scanLoop stack ps s) := by
  induction ps generalizing done s with
  | nil => simpa [scanLoop] using h
  | cons p ps ih =>
    have hcount : s.allProcs.length = done.length := by
      have hlen := congrArg List.length h.entries
      rwa [List.length_map, List.length_map] at hlen
    cases hr : p.reading with
    | none =>
      rw [List.filterMap_cons_none hr] at hfits hfresh ⊢
      rw [scanLoop]
      split
      · rw [scanProc_skip stack s hr]
        exact ih h hfits hfresh
      · -- the local array is full, and nobody else can be counted
        case isFalse hfull =>
        have hnone : ps.filterMap FdSample.reading = [] := by
          rw [List.length_append] at hfits
          exact List.eq_nil_of_length_eq_zero (by omega)
        rwa [hnone, List.append_nil]
    | some r =>
      rw [List.filterMap_cons_some hr] at hfits hfresh ⊢
      have hroom : s.allProcs.length < maxProcs := by
        rw [List.length_append, List.length_cons] at hfits
        omega
      rw [scanLoop, if_pos hroom]
      have hstep := h.step stack hr hfresh
      rw [List.append_cons] at hfits hfresh ⊢
      exact ih hstep hfits hfresh

/-! ## Whole runs -/

/-- A scan that fits into the arrays: no more processes than there are entries, a pid of its own
for every process that was not there in the scan before, and no more pids so far than the table of
first counts can hold. -/
structure StepOk (earlier : List (List Reading)) (scan : List Reading) : Prop where
  fits : scan.length ≤ maxProcs
  fresh : ∀ r ∈ scan, (∀ r' ∈ earlier.headD [], r'.process ≠ r.process) →
    ∀ r' ∈ earlier.flatten, r'.pid ≠ r.pid
  room : ((scan :: earlier).flatten.map Reading.pid).dedup.length ≤ maxProcs * 2

/-- Every scan did, the latest first. -/
def RunOk : List (List Reading) → Prop
  | [] => True
  | scan :: earlier => StepOk earlier scan ∧ RunOk earlier

theorem FdSample.reading_pid {p : FdSample} {r : Reading} (h : p.reading = some r) :
    r.pid = p.pid := by
  rw [FdSample.reading, Option.map_eq_some_iff] at h
  obtain ⟨count, -, rfl⟩ := h
  rfl

theorem FdScan.readings_nodup (scan : FdScan) : (scan.readings.map Reading.pid).Nodup := by
  refine scan.distinct.sublist ?_
  rw [FdScan.readings]
  induction scan.procs with
  | nil => exact List.Sublist.slnil
  | cons p ps ih =>
    cases hr : p.reading with
    | none =>
      rw [List.filterMap_cons_none hr]
      exact ih.cons p.pid
    | some r =>
      rw [List.filterMap_cons_some hr, List.map_cons, List.map_cons, FdSample.reading_pid hr]
      exact ih.cons_cons p.pid

theorem StepOk.toFresh {earlier : List (List Reading)} {scan : FdScan}
    (h : StepOk earlier scan.readings) :
    Fresh Reading.pid Reading.process (maxProcs * 2) earlier scan.readings :=
  ⟨scan.readings_nodup, h.fresh, h.room⟩

/-- The invariant of a run. -/
def After (scans : List (List Reading)) (priv : FdmonPriv) : Prop :=
  ∃ table, Records Reading.pid Reading.process scans table ∧
    priv.initial = table.map Reading.data

/-- What the loop makes of a scan. -/
theorem After.scanning {earlier : List (List Reading)} {priv : FdmonPriv} (h : After earlier priv)
    {scan : FdScan} (hok : StepOk earlier scan.readings) :
    Scanning earlier scan.readings (fdmonScan priv scan) := by
  obtain ⟨table, hrecords, htable⟩ := h
  have hstart : Scanning earlier [] { priv := resetCurrent priv, allProcs := [] } :=
    ⟨⟨table, hrecords, htable⟩, rfl, rfl⟩
  exact hstart.loop scan.stack scan.procs hok.fits hok.toFresh

theorem After.step {earlier : List (List Reading)} {priv : FdmonPriv} (h : After earlier priv)
    (qsort : Qsort) {scan : FdScan} (hok : StepOk earlier scan.readings) :
    After (scan.readings :: earlier) (fdmonCollect qsort priv (some scan)).1 := by
  obtain ⟨table, hrecords, htable⟩ := (h.scanning hok).table
  exact ⟨_, hrecords.step process_pid hok.toFresh, htable⟩

theorem history_append (run rest : List (Option FdScan)) :
    history (run ++ rest) = history rest ++ history run := by
  simp only [history, List.filterMap_append, List.reverse_append]

theorem history_none (run : List (Option FdScan)) : history (run ++ [none]) = history run := by
  rw [history_append]
  rfl

theorem history_some (run : List (Option FdScan)) (scan : FdScan) :
    history (run ++ [some scan]) = scan.readings :: history run := by
  rw [history_append]
  rfl

theorem RunOk.of_append {scans earlier : List (List Reading)} (h : RunOk (scans ++ earlier)) :
    RunOk earlier := by
  induction scans with
  | nil => exact h
  | cons scan scans ih => exact ih h.2

/-- What one collection keeps, a whole run keeps. -/
theorem after_run (qsort : Qsort) (run : List (Option FdScan)) (hok : RunOk (history run)) :
    After (history run) (fdmonRun qsort run) := by
  induction run using List.reverseRecOn with
  | nil => exact ⟨[], records_nil, rfl⟩
  | append_singleton run scan ih =>
    rw [fdmonRun, Run.state_append]
    cases scan with
    | none =>
      -- `opendir` failed, and the table was not touched
      rw [history_none] at hok ⊢
      exact ih hok
    | some scan =>
      rw [history_some] at hok ⊢
      exact (ih hok.2).step qsort hok.1

/-! ## What is reported -/

/-- The process of `r`, in the latest of these scans, has been there in every scan since the one
that read `r₀`, and was not there in the scan before that. -/
structure Since (scans : List (List Reading)) (r₀ r : Reading) (m : Nat) : Prop where
  now : r ∈ scans.headD []
  start : r₀ ∈ scans.getD m []
  same : r₀.process = r.process
  there : ∀ j ≤ m, ∃ r' ∈ scans.getD j [], r'.process = r.process
  absent : ∀ r' ∈ scans.getD (m + 1) [], r'.process ≠ r.process

/-- What is reported of the latest scan: for each process its count in the scan where it appeared,
and how far it has come since; those that have grown are counted. -/
structure BaselinesRight (scans : List (List Reading)) (s : Collecting) (priv : FdmonPriv) :
    Prop where
  once : (s.allProcs.map FdmonEntry.pid).Nodup
  entry : ∀ r₀ r m, Since scans r₀ r m → ∃ e ∈ s.allProcs,
    e.report = (r.pid, r.fdCount, r₀.fdCount, r.fdCount - r₀.fdCount) ∧
    (r₀.fdCount < r.fdCount → e ∈ growing s.allProcs)
  listed : ∀ e ∈ priv.topConsumers ++ priv.leakers, e ∈ s.allProcs
  leaks : priv.summary.potentialLeaks = .ofNat (growing s.allProcs).length

theorem FdSample.reading_nonneg {p : FdSample} {r : Reading} (h : p.reading = some r) :
    0 ≤ r.fdCount.toInt := by
  rw [FdSample.reading, Option.map_eq_some_iff] at h
  obtain ⟨count, hcount, rfl⟩ := h
  rw [countFds, Option.map_eq_some_iff] at hcount
  obtain ⟨links, hlinks, rfl⟩ := hcount
  show 0 ≤ (Int32.ofNat links.length).toInt
  rw [Int32.toInt_ofNat_of_lt (p.fds_lt links hlinks)]
  exact Int.natCast_nonneg _

theorem mem_history {run : List (Option FdScan)} {readings : List Reading}
    (h : readings ∈ history run) : ∃ scan : FdScan, scan.readings = readings := by
  rw [history, List.mem_reverse, List.mem_filterMap] at h
  obtain ⟨scan, -, hscan⟩ := h
  obtain ⟨scan, -, hreadings⟩ := Option.map_eq_some_iff.1 hscan
  exact ⟨scan, hreadings⟩

theorem history_nonneg {run : List (Option FdScan)} {m : Nat} {r : Reading}
    (hr : r ∈ (history run).getD m []) : 0 ≤ r.fdCount.toInt := by
  have hmem : ∃ scan ∈ history run, r ∈ scan := by
    rw [List.getD_eq_getElem?_getD] at hr
    cases hget : (history run)[m]? with
    | none =>
      rw [hget] at hr
      cases hr
    | some scan =>
      rw [hget] at hr
      exact ⟨scan, List.mem_of_getElem? hget, hr⟩
  obtain ⟨readings, hreadings, hr⟩ := hmem
  obtain ⟨scan, rfl⟩ := mem_history hreadings
  obtain ⟨p, -, hp⟩ := List.mem_filterMap.1 hr
  exact FdSample.reading_nonneg hp

theorem history_nodup (run : List (Option FdScan)) :
    ∀ scan ∈ history run, (scan.map Reading.pid).Nodup := by
  intro readings hreadings
  obtain ⟨scan, rfl⟩ := mem_history hreadings
  exact scan.readings_nodup

/-- Descriptor counts do not overflow when they are subtracted. -/
theorem sub_pos {a b : Int32} (ha : 0 ≤ a.toInt) (hab : a < b) : b - a > 0 := by
  rw [Int32.lt_iff_toInt_lt] at hab
  have hb := b.toInt_lt
  rw [gt_iff_lt, Int32.lt_iff_toInt_lt, Int32.toInt_sub, Int.bmod_eq_of_le (by omega) (by omega)]
  show 0 < b.toInt - a.toInt
  omega

/-- **fdmon's first counts are right** in every state of a run in which every scan fits, and no
process takes over a pid. -/
theorem fdmon_baselines_right (qsort : Qsort) (run before : List (Option FdScan)) (scan : FdScan)
    (hok : RunOk (history run)) (hbefore : before ++ [some scan] <+: run) :
    BaselinesRight (history (before ++ [some scan]))
      (fdmonScan (fdmonRun qsort before) scan)
      (fdmonCollect qsort (fdmonRun qsort before) (some scan)).1 := by
  obtain ⟨rest, rfl⟩ := hbefore
  rw [history_append] at hok
  have hnow := hok.of_append
  have hdistinct := history_nodup (before ++ [some scan])
  have hnonneg {m : Nat} {r : Reading} := @history_nonneg (before ++ [some scan]) m r
  rw [history_some] at hnow hdistinct hnonneg ⊢
  have hscan := (after_run qsort before hnow.2).scanning hnow.1
  refine ⟨?_, fun r₀ r m hsince => ?_, fun e he => ?_, hscan.leaks⟩
  · have hpids := congrArg (List.map Prod.fst) hscan.entries
    rw [List.map_map, List.map_map] at hpids
    have hnodup := scan.readings_nodup
    rwa [show Reading.pid = Prod.fst ∘ expected (history before) from rfl, ← hpids] at hnodup
  · have hfirst : first Reading.process r (history before) = r₀ :=
      first_eq process_pid hdistinct hsince.now hsince.there hsince.absent hsince.start
        hsince.same
    have hreport : expected (history before) r ∈
        (fdmonScan (fdmonRun qsort before) scan).allProcs.map FdmonEntry.report := by
      rw [hscan.entries]
      exact List.mem_map_of_mem hsince.now
    obtain ⟨e, he, hentry⟩ := List.mem_map.1 hreport
    rw [expected, hfirst] at hentry
    refine ⟨e, he, hentry, fun hgrown => List.mem_filter.2 ⟨he, ?_⟩⟩
    have hchange : e.fdChange = r.fdCount - r₀.fdCount :=
      congrArg (fun report => report.2.2.2) hentry
    rw [hchange]
    exact decide_eq_true (sub_pos (hnonneg hsince.start) hgrown)
  · rcases List.mem_append.1 he with he | he
    · exact (qsort.perm _ _).mem_iff.1 (List.mem_of_mem_take he)
    · have hsorted := (List.mem_filter.1 (List.mem_of_mem_take he)).1
      exact (qsort.perm _ _).mem_iff.1 ((qsort.perm _ _).mem_iff.1 hsorted)

/-- A scan that finds one process, with that many files open. -/
def scanOne (pid : Int32) (start : UInt64) (files : Fin 1024) : FdScan where
  procs := [{
    pid
    start
    fds := some (List.replicate files (CStr.lit "/").bytes)
    cmdline := none
    comm := none
    fds_lt := by
      rintro links ⟨⟩
      have hfiles := files.isLt
      rw [List.length_replicate]
      omega }]
  stack := fun _ => []
  distinct := List.nodup_singleton _

/-- A process that has opened two files since it was first seen. -/
theorem fdmon_baselines_right_two :
    let run := [some (scanOne 7 1 3), none, some (scanOne 7 1 5)]
    BaselinesRight (history run)
      (fdmonScan (fdmonRun .merge [some (scanOne 7 1 3), none]) (scanOne 7 1 5))
      (fdmonCollect .merge (fdmonRun .merge [some (scanOne 7 1 3), none])
        (some (scanOne 7 1 5))).1 := by
  refine fdmon_baselines_right .merge [some (scanOne 7 1 3), none, some (scanOne 7 1 5)]
    [some (scanOne 7 1 3), none] (scanOne 7 1 5) ?_ (List.prefix_refl _)
  have hhistory : history [some (scanOne 7 1 3), none, some (scanOne 7 1 5)] =
      [[{ pid := 7, start := 1, fdCount := 5 }], [{ pid := 7, start := 1, fdCount := 3 }]] := rfl
  rw [hhistory]
  exact ⟨⟨by decide, by decide, by decide⟩, ⟨by decide, by decide, by decide⟩, trivial⟩

/-- The pid of a process with three descriptors is given to one with five, which did not open any
since it appeared: two are reported. -/
theorem fdmon_baselines_wrong :
    let run := [some (scanOne 7 1 3), some (scanOne 7 2 5)]
    let s := fdmonScan (fdmonRun .merge [some (scanOne 7 1 3)]) (scanOne 7 2 5)
    s.allProcs.map FdmonEntry.report = [(7, 5, 3, 2)] ∧
      ¬ BaselinesRight (history run) s
        (fdmonCollect .merge (fdmonRun .merge [some (scanOne 7 1 3)])
          (some (scanOne 7 2 5))).1 := by
  intro run s
  have hreports : s.allProcs.map FdmonEntry.report = [(7, 5, 3, 2)] := by decide
  refine ⟨hreports, fun h => ?_⟩
  have hhistory : history run =
      [[{ pid := 7, start := 2, fdCount := 5 }], [{ pid := 7, start := 1, fdCount := 3 }]] := rfl
  have hsince : Since (history run) { pid := 7, start := 2, fdCount := 5 }
      { pid := 7, start := 2, fdCount := 5 } 0 := by
    rw [hhistory]
    exact ⟨by decide, by decide, rfl, by decide, by decide⟩
  obtain ⟨e, he, hentry, -⟩ := h.entry _ _ 0 hsince
  have hmem : e.report ∈ s.allProcs.map FdmonEntry.report := List.mem_map_of_mem he
  rw [hreports, hentry] at hmem
  exact absurd hmem (by decide)

end Fdmon

end Qmem
