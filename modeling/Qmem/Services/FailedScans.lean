import Qmem.Lib.Attempts
import Qmem.Services.CpuloadTop
import Qmem.Services.FdmonRuns
import Qmem.Services.ProceventDiff
import Mathlib.Data.List.GetD

/-!
# Collections that cannot open /proc

procevent, cpuload and fdmon put the current table in place of the previous one before they open
/proc. If that fails the next scan is compared with nothing. A failure is harmless as long as
there has been no scan yet.

Main result: `baseline_kept`.
-/

namespace Qmem

open CLib PoolTable

/-! ## procevent -/

namespace Procevent

/-- The events of a collection that succeeds. -/
def eventsStep (priv : ProceventPriv) (scan : Scan) : ProceventPriv × Option (List ProcEvent) :=
  let (s, ok) := proceventCollect priv scan
  (s.priv, if ok then some s.added else none)

def Scan.opens (scan : Scan) : Bool := scan.dir.isSome

def eventsOf (scans : List Scan) : List (List ProcEvent) :=
  Attempts.outputs eventsStep proceventInit scans

theorem eventsStep_of_fail (priv : ProceventPriv) {scan : Scan} (h : scan.opens = false) :
    eventsStep priv scan = ({ priv with tables := priv.tables.swap }, none) := by
  have hdir : scan.dir = none := by simpa [Scan.opens] using h
  rw [eventsStep, proceventCollect, hdir]
  rfl

theorem eventsOf_filter {scans before run after : List Scan}
    (h : Attempts.Unbroken Scan.opens scans before run after) :
    eventsOf scans = eventsOf (scans.filter Scan.opens) := by
  refine h.outputs_filter (fun s a ha => by rw [eventsStep_of_fail s ha]) ?_
  rw [Attempts.final_eq_self fun a ha => ?_]
  rw [eventsStep_of_fail _ (h.before_fails a ha)]
  rfl

end Procevent

/-! ## fdmon -/

namespace Fdmon

/-- The entries of a collection that succeeds, each with its difference. -/
def entriesStep (qsort : Qsort) (priv : FdmonPriv) (scan : Option FdScan) :
    FdmonPriv × Option (List FdmonEntry) :=
  ((fdmonCollect qsort priv scan).1, scan.map fun scan => (fdmonScan priv scan).allProcs)

def entriesOf (qsort : Qsort) (scans : List (Option FdScan)) : List (List FdmonEntry) :=
  Attempts.outputs (entriesStep qsort) fdmonInit scans

theorem entriesOf_filter (qsort : Qsort) {scans before run after : List (Option FdScan)}
    (h : Attempts.Unbroken Option.isSome scans before run after) :
    entriesOf qsort scans = entriesOf qsort (scans.filter Option.isSome) := by
  have hnone (scan : Option FdScan) (hscan : scan.isSome = false) : scan = none := by
    simpa using hscan
  refine h.outputs_filter (fun s a ha => by rw [hnone a ha]; rfl) ?_
  rw [Attempts.final_eq_self fun a ha => ?_]
  rw [hnone a (h.before_fails a ha)]
  rfl

end Fdmon

/-! ## cpuload -/

namespace Cpuload

/-- The candidates of a collection that succeeds. -/
def candidatesStep (qsort : Qsort) (priv : CpuloadPriv) (sample : Sample) :
    CpuloadPriv × Option (List CpuloadEntry) :=
  ((cpuloadCollect qsort priv sample).1,
    sample.dir.map fun ps => (cpuloadScan priv sample.sys ps).allEntries)

def Sample.opens (sample : Sample) : Bool := sample.dir.isSome

/-- The line of /proc/stat has all seven numbers. -/
def Sample.full (sample : Sample) : Bool :=
  match sample.sys with
  | some vs => 7 ≤ vs.length
  | none => false

def candidatesOf (qsort : Qsort) (ticks : Int64) (samples : List Sample) :
    List (List CpuloadEntry) :=
  Attempts.outputs (candidatesStep qsort) (cpuloadInit ticks) samples

/-- What the candidates of a scan depend on. -/
structure Collecting.Same (s t : Collecting) : Prop where
  tables : s.priv.tables = t.priv.tables
  hasPrevious : s.priv.hasPrevious = t.priv.hasPrevious
  allEntries : s.allEntries = t.allEntries

/-- The system's total time counts only for processes that are compared. -/
theorem candidate_congr {p q : CpuloadPriv} {total total' : UInt64} (htables : p.tables = q.tables)
    (hseen : p.hasPrevious = q.hasPrevious) (htotal : q.hasPrevious = true → total = total')
    (e : ProcCpu) : candidate p total e = candidate q total' e := by
  rw [candidate, candidate, findInHash, findInHash, htables, hseen]
  by_cases h : q.hasPrevious = true
  · rw [htotal h]
  · rw [if_neg fun hand => h hand.1, if_neg fun hand => h hand.1]

theorem scanProc_congr {s t : Collecting} {total total' : UInt64} (h : s.Same t)
    (htotal : t.priv.hasPrevious = true → total = total') (p : CpuSample) :
    (scanProc total s p).2 = (scanProc total' t p).2 ∧
      (scanProc total s p).1.Same (scanProc total' t p).1 ∧
      (scanProc total' t p).1.priv.hasPrevious = t.priv.hasPrevious := by
  have halloc : allocEntry s.priv = allocEntry t.priv := by
    rw [allocEntry, allocEntry, h.tables]
  rw [scanProc, scanProc, h.allEntries]
  by_cases hfull : t.allEntries.length < maxProcs
  · rw [if_pos hfull, if_pos hfull]
    cases p.stat with
    | none => exact ⟨rfl, h, rfl⟩
    | some st =>
      simp only [halloc]
      cases allocEntry t.priv with
      | none => exact ⟨rfl, h, rfl⟩
      | some i =>
        have htables : (insertHash s.priv (st.entry p.pid)).tables =
            (insertHash t.priv (st.entry p.pid)).tables := by
          rw [insertHash, insertHash, h.tables]
        have hcandidate := candidate_congr htables h.hasPrevious htotal (st.entry p.pid)
        refine ⟨rfl, ⟨htables, h.hasPrevious, ?_⟩, rfl⟩
        simp only [hcandidate]
  · rw [if_neg hfull, if_neg hfull]
    exact ⟨rfl, h, rfl⟩

theorem scan_congr {s t : Collecting} {total total' : UInt64} (h : s.Same t)
    (htotal : t.priv.hasPrevious = true → total = total') (ps : List CpuSample) (count : Nat) :
    (iteratePids (scanProc total) ps s count).1.Same
      (iteratePids (scanProc total') ps t count).1 := by
  induction ps generalizing s t count with
  | nil => exact h
  | cons p ps ih =>
    obtain ⟨hgo, hnext, hseen⟩ := scanProc_congr h htotal p
    cases ht : (scanProc total' t p).2 with
    | true =>
      rw [iteratePids_go (hgo.trans ht), iteratePids_go ht]
      exact ih hnext (fun hprev => htotal (hseen.symm.trans hprev)) (count + 1)
    | false =>
      rw [iteratePids_stop (hgo.trans ht), iteratePids_stop ht]
      exact hnext

/-- What the candidates of a run depend on. -/
structure CpuloadPriv.Same (s t : CpuloadPriv) : Prop where
  tables : s.tables = t.tables
  hasPrevious : s.hasPrevious = t.hasPrevious
  total : s.currSys.total = t.currSys.total

/-- A line with all seven numbers gives the total. -/
theorem total_of_full {sample : Sample} (h : sample.full = true) (c c' : CpuCounters) :
    (parseProcStat c sample.sys).1.total = (parseProcStat c' sample.sys).1.total := by
  rw [Sample.full] at h
  split at h
  · case h_1 vs hsys =>
    have hlen : 7 ≤ vs.length := of_decide_eq_true h
    have hget (i : Nat) (hi : i < 7) (d d' : UInt64) : vs.getD i d = vs.getD i d' := by
      have hi : i < vs.length := by omega
      rw [List.getD_eq_getElem _ _ hi, List.getD_eq_getElem _ _ hi]
    simp only [hsys, parseProcStat, if_neg (not_lt.2 hlen)]
    rw [hget 0 (by omega) c.user c'.user, hget 1 (by omega) c.nice c'.nice,
      hget 2 (by omega) c.system c'.system, hget 3 (by omega) c.idle c'.idle,
      hget 4 (by omega) c.iowait c'.iowait, hget 5 (by omega) c.irq c'.irq,
      hget 6 (by omega) c.softirq c'.softirq]
  · exact absurd h Bool.false_ne_true

/-- Any other line leaves it. -/
theorem total_of_not_full {sample : Sample} (h : sample.full = false) (c : CpuCounters) :
    (parseProcStat c sample.sys).1.total = c.total := by
  rw [Sample.full] at h
  split at h
  · case h_1 vs hsys =>
    have hlen : vs.length < 7 := not_le.1 (of_decide_eq_false h)
    simp only [hsys, parseProcStat, if_pos hlen]
  · case h_2 hsys => rw [hsys, parseProcStat]

theorem total_congr {sample : Sample} {c c' : CpuCounters}
    (h : sample.full = true ∨ c.total = c'.total) :
    (parseProcStat c sample.sys).1.total = (parseProcStat c' sample.sys).1.total := by
  by_cases hfull : sample.full = true
  · exact total_of_full hfull c c'
  · have hnot := eq_false_of_ne_true hfull
    rw [total_of_not_full hnot, total_of_not_full hnot]
    exact h.resolve_left hfull

/-- The scans of two states with the same tables. -/
theorem candidatesStep_congr (qsort : Qsort) {s t : CpuloadPriv} (sample : Sample)
    (htables : s.tables = t.tables) (hseen : s.hasPrevious = t.hasPrevious)
    (htotal : s.currSys.total = t.currSys.total ∨
      t.hasPrevious = false ∧ sample.full = true) :
    (candidatesStep qsort s sample).2 = (candidatesStep qsort t sample).2 ∧
      (candidatesStep qsort s sample).1.Same (candidatesStep qsort t sample).1 := by
  have hnow : (parseProcStat s.currSys sample.sys).1.total =
      (parseProcStat t.currSys sample.sys).1.total :=
    total_congr (htotal.symm.imp_left fun h => h.2)
  have hswap : s.tables.swap = t.tables.swap := by rw [htables]
  have hdelta : t.hasPrevious = true →
      (systemSample s sample.sys).2 = (systemSample t sample.sys).2 := by
    intro hprev
    have hbefore : s.currSys.total = t.currSys.total :=
      htotal.resolve_right fun h => by simp [hprev] at h
    show _ - s.currSys.total = _ - t.currSys.total
    rw [hnow, hbefore]
  cases hdir : sample.dir with
  | none =>
    refine ⟨by rw [candidatesStep, candidatesStep, hdir]; rfl, ?_⟩
    simp only [candidatesStep, cpuloadCollect, hdir]
    exact ⟨hswap, hseen, hnow⟩
  | some ps =>
    have hstart : Collecting.Same ⟨(systemSample s sample.sys).1, []⟩
        ⟨(systemSample t sample.sys).1, []⟩ := ⟨hswap, hseen, rfl⟩
    have hscan : (cpuloadScan s sample.sys ps).Same (cpuloadScan t sample.sys ps) :=
      scan_congr hstart hdelta ps 0
    refine ⟨by rw [candidatesStep, candidatesStep, hdir, Option.map_some, Option.map_some,
      hscan.allEntries], ?_⟩
    simp only [candidatesStep, cpuloadCollect, hdir]
    refine ⟨hscan.tables, rfl, ?_⟩
    have hs : (cpuloadScan s sample.sys ps).priv.currSys =
        (systemSample s sample.sys).1.currSys := (scan_system _ ps _ 0).1
    have ht : (cpuloadScan t sample.sys ps).priv.currSys =
        (systemSample t sample.sys).1.currSys := (scan_system _ ps _ 0).1
    rw [hs, ht]
    exact hnow

theorem candidatesStep_same (qsort : Qsort) (s t : CpuloadPriv) (sample : Sample) (h : s.Same t) :
    (candidatesStep qsort s sample).2 = (candidatesStep qsort t sample).2 ∧
      (candidatesStep qsort s sample).1.Same (candidatesStep qsort t sample).1 :=
  candidatesStep_congr qsort sample h.tables h.hasPrevious (Or.inl h.total)

/-- Failures before the first scan leave the tables empty, and the total as it was if none of them
reads it. -/
theorem final_of_failures (qsort : Qsort) (ticks : Int64) {before : List Sample}
    (hfail : ∀ b ∈ before, b.opens = false) :
    let s := Attempts.final (candidatesStep qsort) (cpuloadInit ticks) before
    s.tables = (cpuloadInit ticks).tables ∧ s.hasPrevious = false ∧
      ((∀ b ∈ before, b.full = false) → s.currSys.total = 0) := by
  induction before using List.reverseRecOn with
  | nil => exact ⟨rfl, rfl, fun _ => rfl⟩
  | append_singleton before b ih =>
    obtain ⟨htables, hseen, htotal⟩ := ih fun c hc => hfail c (List.mem_append_left _ hc)
    have hdir : b.dir = none := by
      simpa [Sample.opens] using hfail b (List.mem_append_right _ (List.mem_singleton_self b))
    intro s
    have hstep : s = (systemSample (Attempts.final (candidatesStep qsort) (cpuloadInit ticks)
        before) b.sys).1 := by
      show Run.state _ _ (before ++ [b]) = _
      rw [Run.state_append, Run.state_cons, Run.state_nil, candidatesStep, cpuloadCollect, hdir]
    rw [hstep]
    refine ⟨?_, hseen, fun hnone => ?_⟩
    · show PoolTable.Tables.swap _ = _
      rw [htables]
      rfl
    · have hb := hnone b (List.mem_append_right _ (List.mem_singleton_self b))
      have hbefore := htotal fun c hc => hnone c (List.mem_append_left _ hc)
      rw [← hbefore]
      exact total_of_not_full hb _

/-- The first scan reads all of /proc/stat, or no failure before it does. -/
def FirstReads (before run : List Sample) : Prop :=
  (∀ first ∈ run.head?, first.full = true) ∨ ∀ b ∈ before, b.full = false

theorem candidatesOf_filter (qsort : Qsort) (ticks : Int64) {samples before run after : List Sample}
    (h : Attempts.Unbroken Sample.opens samples before run after) (hreads : FirstReads before run) :
    candidatesOf qsort ticks samples = candidatesOf qsort ticks (samples.filter Sample.opens) := by
  refine h.outputs_filter (fun s a ha => ?_) ?_
  · have hdir : a.dir = none := by simpa [Sample.opens] using ha
    rw [candidatesStep, hdir]
    rfl
  obtain ⟨htables, hseen, htotal⟩ := final_of_failures qsort ticks h.before_fails
  cases run with
  | nil => rfl
  | cons first run =>
    have hstart : (Attempts.final (candidatesStep qsort) (cpuloadInit ticks) before).currSys.total =
          (cpuloadInit ticks).currSys.total ∨
        (cpuloadInit ticks).hasPrevious = false ∧ first.full = true :=
      hreads.symm.imp htotal fun hfirst => ⟨rfl, hfirst first rfl⟩
    obtain ⟨hout, hnext⟩ := candidatesStep_congr qsort first htables hseen hstart
    rw [Attempts.outputs, Attempts.outputs, hout,
      Attempts.outputs_congr (fun s t a => candidatesStep_same qsort s t a) run hnext]

end Cpuload

/-! ## All three -/

/-- **Failed collections do not show in what the others find**, as long as none comes between two
that succeed. For cpuload the first that succeeds has to read the system's counters, too, unless
no failed one before it did. -/
theorem baseline_kept (qsort : Qsort) (ticks : Int64)
    {scans before run after : List Procevent.Scan}
    (hscans : Attempts.Unbroken Procevent.Scan.opens scans before run after)
    {samples before' run' after' : List Cpuload.Sample}
    (hsamples : Attempts.Unbroken Cpuload.Sample.opens samples before' run' after')
    (hreads : Cpuload.FirstReads before' run')
    {fdScans before'' run'' after'' : List (Option Fdmon.FdScan)}
    (hfdScans : Attempts.Unbroken Option.isSome fdScans before'' run'' after'') :
    Procevent.eventsOf scans = Procevent.eventsOf (scans.filter Procevent.Scan.opens) ∧
      Cpuload.candidatesOf qsort ticks samples =
        Cpuload.candidatesOf qsort ticks (samples.filter Cpuload.Sample.opens) ∧
      Fdmon.entriesOf qsort fdScans = Fdmon.entriesOf qsort (fdScans.filter Option.isSome) :=
  ⟨Procevent.eventsOf_filter hscans, Cpuload.candidatesOf_filter qsort ticks hsamples hreads,
    Fdmon.entriesOf_filter qsort hfdScans⟩

namespace Procevent

/-- Process 1, if /proc can be opened. -/
def Scan.one (opens : Bool) : Scan where
  dir := if opens then some [{ pid := 1, comm := none }] else none
  time _ := 0

end Procevent

namespace Cpuload

/-- Process 2, behind another one or alone, with its time and the system's. -/
def busySample (alone : Bool) (time : UInt64) : Sample where
  sys := some [time, 0, 0, 0, 0, 0, 0]
  dir := some ((if alone then [] else [{ pid := 1, stat := some ⟨0, 0, .lit "a"⟩ }]) ++
    [{ pid := 2, stat := some ⟨time, 0, .lit "b"⟩ }])

def lostSample : Sample where
  sys := none
  dir := none

end Cpuload

/-- A failure before the first scan, and one after the last. -/
theorem baseline_kept_ends :
    Procevent.eventsOf [.one false, .one true, .one true, .one false] =
        Procevent.eventsOf [.one true, .one true] ∧
      Cpuload.candidatesOf .merge 100 [Cpuload.lostSample, Cpuload.busySample false 10,
          Cpuload.busySample true 30] =
        Cpuload.candidatesOf .merge 100 [Cpuload.busySample false 10, Cpuload.busySample true 30] ∧
      Fdmon.entriesOf .merge [none, some (Fdmon.scanOne 7 1 3), some (Fdmon.scanOne 7 1 5)] =
        Fdmon.entriesOf .merge [some (Fdmon.scanOne 7 1 3), some (Fdmon.scanOne 7 1 5)] := by
  have hscans : Attempts.Unbroken Procevent.Scan.opens
      [.one false, .one true, .one true, .one false] [.one false] [.one true, .one true]
      [.one false] := ⟨rfl, by decide, by decide, by decide⟩
  have hsamples : Attempts.Unbroken Cpuload.Sample.opens
      [Cpuload.lostSample, Cpuload.busySample false 10, Cpuload.busySample true 30]
      [Cpuload.lostSample] [Cpuload.busySample false 10, Cpuload.busySample true 30] [] :=
    ⟨rfl, by decide, by decide, by decide⟩
  have hfdScans : Attempts.Unbroken Option.isSome
      [none, some (Fdmon.scanOne 7 1 3), some (Fdmon.scanOne 7 1 5)] [none]
      [some (Fdmon.scanOne 7 1 3), some (Fdmon.scanOne 7 1 5)] [] :=
    ⟨rfl, by decide, by decide, by decide⟩
  exact baseline_kept .merge 100 hscans hsamples (Or.inr (by decide)) hfdScans

/-- A failure in the middle: a process that was there all the time has been forked, the one that
used all the time is no candidate, and two new descriptors are none. -/
theorem baseline_lost :
    (Procevent.eventsOf [.one true, .one true]).map (·.map Procevent.ProcEvent.tag) =
        [[], []] ∧
      (Procevent.eventsOf [.one true, .one false, .one true]).map
          (·.map Procevent.ProcEvent.tag) = [[], [(.fork, 1)]] ∧
      (Cpuload.candidatesOf .merge 100 [Cpuload.busySample false 10,
          Cpuload.busySample true 30]).map (·.map Cpuload.CpuloadEntry.pid) = [[], [2]] ∧
      (Cpuload.candidatesOf .merge 100 [Cpuload.busySample false 10, Cpuload.lostSample,
          Cpuload.busySample true 30]).map (·.map Cpuload.CpuloadEntry.pid) = [[], []] ∧
      (Fdmon.entriesOf .merge [some (Fdmon.scanOne 7 1 3), some (Fdmon.scanOne 7 1 5)]).map
          (·.map Fdmon.FdmonEntry.fdDelta) = [[0], [2]] ∧
      (Fdmon.entriesOf .merge [some (Fdmon.scanOne 7 1 3), none,
          some (Fdmon.scanOne 7 1 5)]).map (·.map Fdmon.FdmonEntry.fdDelta) = [[0], [0]] := by
  refine ⟨?_, ?_, ?_, ?_, ?_, ?_⟩ <;> decide +kernel

end Qmem
