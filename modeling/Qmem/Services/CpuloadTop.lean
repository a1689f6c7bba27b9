import Qmem.Services.Cpuload

/-!
# Which processes become candidates

A process is measured against its entry of the sample before only where that entry has not been
overwritten yet (`candidateAt`); where it has, the process is not found, or found as itself with
a share of 0. The subtraction is unsigned, so a reused pid that is found does show up with a
wrapped share. `candidatesRight_iff` says when neither happens.
-/

namespace Qmem

open CLib PoolTable

namespace Cpuload

/-- The processes a sample reads, as they are stored. -/
def readings (ps : List CpuSample) : List ProcCpu :=
  ps.filterMap fun p => p.stat.map fun st => st.entry p.pid

/-- The share of one process in the system time `total`, between two readings of it. -/
def share (x y : ProcCpu) (total : UInt64) : ℚ := percent (y.totalTime - x.totalTime) total

def ProcCpu.result (y : ProcCpu) (pct : ℚ) : CpuloadEntry where
  pid := y.pid
  cmd := y.cmd
  cpuPercent := pct
  utime := y.utime
  stime := y.stime

/-- The candidate that the reading `y` at position `j` makes, after a sample that read `xs`. -/
def candidateAt (xs : List ProcCpu) (total : UInt64) (j : Nat) (y : ProcCpu) :
    Option CpuloadEntry :=
  ((xs.drop (j + 1)).find? fun x => x.pid = y.pid).bind fun x =>
    if share x y total > 1 / 100 then some (y.result (share x y total)) else none

def candidates (xs ys : List ProcCpu) (total : UInt64) : List CpuloadEntry :=
  ys.zipIdx.filterMap fun y => candidateAt xs total y.2 y.1

theorem candidates_append (xs ys : List ProcCpu) (total : UInt64) (y : ProcCpu) :
    candidates xs (ys ++ [y]) total =
      candidates xs ys total ++ (candidateAt xs total ys.length y).toList := by
  rw [candidates, List.zipIdx_append, List.filterMap_append, ← candidates]
  cases h : candidateAt xs total ys.length y <;> simp [h]

theorem length_candidates_le (xs ys : List ProcCpu) (total : UInt64) :
    (candidates xs ys total).length ≤ ys.length := by
  have h := List.length_filterMap_le (fun y : ProcCpu × Nat => candidateAt xs total y.2 y.1)
    ys.zipIdx
  rwa [List.length_zipIdx] at h

@[simp] theorem percent_zero (total : UInt64) : percent 0 total = 0 := by
  simp [percent]

/-! ## A scan -/

/-- The invariant of a scan, after a sample that read `xs`. -/
structure Scanning (seen : Bool) (xs ys : List ProcCpu) (total : UInt64) (s : Collecting) :
    Prop where
  round : s.priv.tables.Round ProcCpu.pid hashPid xs ys
  hasPrevious : s.priv.hasPrevious = seen
  allEntries : s.allEntries = if seen ∧ total > 0 then candidates xs ys total else []

theorem candidate_eq (priv : CpuloadPriv) {xs ys : List ProcCpu} {e : ProcCpu} {total : UInt64}
    (h : priv.tables.Round ProcCpu.pid hashPid xs (ys ++ [e]))
    (hxs : (xs.map ProcCpu.pid).Nodup) (hys : e.pid ∉ ys.map ProcCpu.pid)
    (hlen : xs.length ≤ maxProcs * 2) (hlen' : ys.length < maxProcs * 2) :
    candidate priv total e =
      if priv.hasPrevious ∧ total > 0 then candidateAt xs total ys.length e else none := by
  have hfind : findInHash priv priv.tables.previous e.pid = _ :=
    h.refilling.find_prev hxs hys hlen hlen'
  unfold candidate candidateAt
  rw [hfind]
  split
  · cases (xs.drop (ys.length + 1)).find? fun x => x.pid = e.pid with
    | some x => rfl
    | none =>
      -- the search ends, or it comes back with the new entry and a share of 0
      have hself : ¬ percent (e.totalTime - e.totalTime) total > 1 / 100 := by
        rw [UInt64.sub_self, percent_zero]
        norm_num
      rw [Option.none_or]
      split
      · simp only [Option.bind_some, if_neg hself, Option.bind_none]
      · rfl
  · rfl

theorem Scanning.step {seen : Bool} {xs ys : List ProcCpu} {total : UInt64} {s : Collecting}
    (h : Scanning seen xs ys total s) (p : CpuSample) {st : PidStat} (hp : p.stat = some st)
    (hxs : (xs.map ProcCpu.pid).Nodup) (hxlen : xs.length ≤ maxProcs)
    (hys : p.pid ∉ ys.map ProcCpu.pid) (hylen : ys.length < maxProcs) :
    (scanProc total s p).2 = true ∧
      Scanning seen xs (ys ++ [st.entry p.pid]) total (scanProc total s p).1 := by
  have hroom : allocEntry s.priv = some ys.length := by
    rw [allocEntry, h.round.poolIdx_eq, if_neg (by simp only [maxProcs] at *; omega)]
  have hcount : s.allEntries.length < maxProcs := by
    have := length_candidates_le xs ys total
    rw [h.allEntries]
    split
    · omega
    · simp [maxProcs]
  unfold scanProc
  simp only [if_pos hcount, hp, hroom, true_and]
  have hadd := h.round.add (st.entry p.pid)
  refine ⟨hadd, h.hasPrevious, ?_⟩
  simp only [candidate_eq (insertHash s.priv (st.entry p.pid)) hadd hxs hys (by omega)
    (by omega), h.allEntries]
  have hprev : (insertHash s.priv (st.entry p.pid)).hasPrevious = seen := h.hasPrevious
  rw [hprev, candidates_append]
  split <;> simp

theorem Scanning.iterate {seen : Bool} {xs ys : List ProcCpu} {total : UInt64} {s : Collecting}
    (h : Scanning seen xs ys total s) (ps : List CpuSample) (hxs : (xs.map ProcCpu.pid).Nodup)
    (hxlen : xs.length ≤ maxProcs) (hys : ((ys ++ readings ps).map ProcCpu.pid).Nodup)
    (hylen : (ys ++ readings ps).length ≤ maxProcs) (count : Nat) :
    Scanning seen xs (ys ++ readings ps) total (iteratePids (scanProc total) ps s count).1 := by
  induction ps generalizing s ys count with
  | nil => simpa [iteratePids, readings] using h
  | cons p ps ih =>
    cases hp : p.stat with
    | none =>
      have hsame : readings (p :: ps) = readings ps := by simp [readings, hp]
      rw [hsame] at hys hylen ⊢
      by_cases hcount : s.allEntries.length < maxProcs
      · rw [iteratePids, scanProc, if_pos hcount, hp]
        exact ih h hys hylen (count + 1)
      · -- the array is full, and so there is nothing left to read
        have hfull : readings ps = [] := by
          have hle : s.allEntries.length ≤ ys.length := by
            rw [h.allEntries]
            split
            · exact length_candidates_le xs ys total
            · exact Nat.zero_le _
          rw [List.length_append] at hylen
          exact List.eq_nil_of_length_eq_zero (by omega)
        rw [hfull, List.append_nil, iteratePids, scanProc, if_neg hcount]
        exact h
    | some st =>
      have hcons : readings (p :: ps) = st.entry p.pid :: readings ps := by simp [readings, hp]
      rw [hcons, List.append_cons] at hys hylen ⊢
      have hnew : p.pid ∉ ys.map ProcCpu.pid := by
        rw [List.map_append, List.map_append] at hys
        have hfront := (List.nodup_append.1 hys).1
        rw [List.nodup_append] at hfront
        intro hmem
        exact hfront.2.2 p.pid hmem p.pid (by simp [PidStat.entry]) rfl
      obtain ⟨hgo, hnext⟩ := h.step p hp hxs hxlen hnew
        (by simp only [List.length_append, List.length_singleton] at hylen; omega)
      rw [iteratePids_go hgo]
      exact ih hnext hys hylen (count + 1)

/-- One process leaves the system's values alone. -/
theorem scanProc_system (total : UInt64) (s : Collecting) (p : CpuSample) :
    (scanProc total s p).1.priv.currSys = s.priv.currSys ∧
      (scanProc total s p).1.priv.systemStats = s.priv.systemStats := by
  unfold scanProc
  split
  · split
    · exact ⟨rfl, rfl⟩
    · split <;> exact ⟨rfl, rfl⟩
  · exact ⟨rfl, rfl⟩

/-- And so does the scan. -/
theorem scan_system (total : UInt64) (ps : List CpuSample) (s : Collecting) (count : Nat) :
    (iteratePids (scanProc total) ps s count).1.priv.currSys = s.priv.currSys ∧
      (iteratePids (scanProc total) ps s count).1.priv.systemStats = s.priv.systemStats := by
  refine iteratePids_keeps (I := fun next : Collecting =>
    next.priv.currSys = s.priv.currSys ∧ next.priv.systemStats = s.priv.systemStats)
    ?_ ⟨rfl, rfl⟩ ps count
  intro next p ⟨hcurr, hstats⟩
  obtain ⟨hkeepCurr, hkeepStats⟩ := scanProc_system total next p
  exact ⟨hkeepCurr.trans hcurr, hkeepStats.trans hstats⟩

/-! ## Collections and runs -/

/-- The state after a sample that read `xs`. -/
structure After (seen : Bool) (xs : List ProcCpu) (priv : CpuloadPriv) : Prop where
  settled : priv.tables.Settled ProcCpu.pid hashPid xs
  hasPrevious : priv.hasPrevious = seen

/-- A sample the service is made for. -/
structure SampleOk (ps : List CpuSample) : Prop where
  distinct : ((readings ps).map ProcCpu.pid).Nodup
  room : (readings ps).length ≤ maxProcs

/-- The numbers of /proc/stat, and the processes. -/
abbrev Pass := Option (List UInt64) × List CpuSample

def Pass.readings (p : Pass) : List ProcCpu := Cpuload.readings p.2

def Pass.collect (qsort : Qsort) (priv : CpuloadPriv) (p : Pass) : CpuloadPriv :=
  (cpuloadCollect qsort priv ⟨p.1, some p.2⟩).1

def cpuloadRun (qsort : Qsort) (ticks : Int64) (passes : List Pass) : CpuloadPriv :=
  passes.foldl (Pass.collect qsort) (cpuloadInit ticks)

/-- The difference of the system's total time to the sample before. -/
def totalDelta (priv : CpuloadPriv) (p : Pass) : UInt64 := (systemSample priv p.1).2

theorem After.scanning {seen : Bool} {xs : List ProcCpu} {priv : CpuloadPriv}
    (h : After seen xs priv) (hxs : (xs.map ProcCpu.pid).Nodup) (hxlen : xs.length ≤ maxProcs)
    {p : Pass} (hp : SampleOk p.2) :
    Scanning seen xs p.readings (totalDelta priv p) (cpuloadScan priv p.1 p.2) := by
  have hstart : Scanning seen xs [] (totalDelta priv p)
      ⟨(systemSample priv p.1).1, []⟩ := by
    refine ⟨h.settled.swap, h.hasPrevious, ?_⟩
    split <;> rfl
  exact hstart.iterate p.2 hxs hxlen hp.distinct hp.room 0

theorem After.collect {seen : Bool} {xs : List ProcCpu} {priv : CpuloadPriv}
    (h : After seen xs priv) (hxs : (xs.map ProcCpu.pid).Nodup) (hxlen : xs.length ≤ maxProcs)
    {p : Pass} (hp : SampleOk p.2) (qsort : Qsort) :
    After true p.readings (Pass.collect qsort priv p) :=
  ⟨(h.scanning hxs hxlen hp).round.settled, rfl⟩

theorem after_init (ticks : Int64) : After false [] (cpuloadInit ticks) :=
  ⟨Tables.settled_init _, rfl⟩

theorem after_run (qsort : Qsort) (ticks : Int64) {passes : List Pass}
    (hok : ∀ p ∈ passes, SampleOk p.2) {k : Nat} {p : Pass} (hp : passes[k]? = some p) :
    After true p.readings (cpuloadRun qsort ticks (passes.take (k + 1))) := by
  induction k generalizing p with
  | zero =>
    rw [List.take_add_one, hp]
    exact (after_init ticks).collect List.nodup_nil (Nat.zero_le _)
      (hok p (List.mem_of_getElem? hp)) qsort
  | succ k ih =>
    have hk : k < passes.length := by
      have := (List.getElem?_eq_some_iff.1 hp).1
      omega
    have hprev := List.getElem?_eq_getElem hk
    have hprevOk := hok _ (List.mem_of_getElem? hprev)
    have hnext := (ih hprev).collect hprevOk.distinct hprevOk.room
      (hok p (List.mem_of_getElem? hp)) qsort
    rw [List.take_add_one, hp, cpuloadRun, List.foldl_append]
    exact hnext

/-! ## When the candidates are right -/

/-- The share of a process by the exact differences. -/
def growth (x y : ProcCpu) (total : ℚ) : ℚ :=
  100 * ((y.totalTime.toNat : ℚ) - x.totalTime.toNat) / total

/-- Of the processes both samples read: one that has used more than 0.01 % is a candidate with
its share, and one whose time went back is none. -/
def CandidatesRight (xs ys : List ProcCpu) (total : ℚ) (cands : List CpuloadEntry) : Prop :=
  ∀ x ∈ xs, ∀ y ∈ ys, x.pid = y.pid →
    (x.totalTime ≤ y.totalTime → growth x y total > 1 / 100 →
      ∃ e ∈ cands, e.pid = y.pid ∧ e.cpuPercent = growth x y total) ∧
    (y.totalTime < x.totalTime → ∀ e ∈ cands, e.pid ≠ y.pid)

/-- `top` are the `n` largest of the candidates, the largest first. -/
def Largest (n : Nat) (cands top : List CpuloadEntry) : Prop :=
  top.length = min n cands.length ∧
    (top.Pairwise fun a b => b.cpuPercent ≤ a.cpuPercent) ∧
    ∃ rest, (top ++ rest).Perm cands ∧ ∀ a ∈ top, ∀ b ∈ rest, b.cpuPercent ≤ a.cpuPercent

/-- A process that has used more than 0.01 % has moved to an earlier place in the sample; one
whose time went back, and whose wrapped share is more than 0.01 %, has not. -/
def WellPlaced (xs ys : List ProcCpu) (total : UInt64) : Prop :=
  ∀ (i j : Nat) (x y : ProcCpu), xs[i]? = some x → ys[j]? = some y → x.pid = y.pid →
    share x y total > 1 / 100 →
      (x.totalTime ≤ y.totalTime → j < i) ∧ (y.totalTime < x.totalTime → i ≤ j)

theorem toNat_sub_cast {a b : UInt64} (h : b ≤ a) :
    ((a - b).toNat : ℚ) = (a.toNat : ℚ) - b.toNat := by
  rw [UInt64.toNat_sub_of_le _ _ h, Nat.cast_sub (UInt64.le_iff_toNat_le.1 h)]

theorem share_eq_growth {x y : ProcCpu} {total : UInt64} (h : x.totalTime ≤ y.totalTime) :
    share x y total = growth x y total.toNat := by
  rw [share, percent, growth, toNat_sub_cast h]

section

variable {xs ys : List ProcCpu} {total : UInt64}

theorem candidateAt_of_find {i j : Nat} {x y : ProcCpu} (hxs : (xs.map ProcCpu.pid).Nodup)
    (hx : xs[i]? = some x) (hpid : x.pid = y.pid) :
    candidateAt xs total j y =
      if j < i ∧ share x y total > 1 / 100 then some (y.result (share x y total)) else none := by
  rw [candidateAt, find_drop_of_key hxs hx hpid]
  by_cases h : j < i <;> simp [h]

theorem pid_of_candidateAt {j : Nat} {y : ProcCpu} {e : CpuloadEntry}
    (h : candidateAt xs total j y = some e) : e.pid = y.pid := by
  rw [candidateAt, Option.bind_eq_some_iff] at h
  obtain ⟨x, -, h⟩ := h
  split at h
  · rw [← Option.some.inj h]
    rfl
  · simp at h

theorem mem_candidates {e : CpuloadEntry} :
    e ∈ candidates xs ys total ↔ ∃ j y, ys[j]? = some y ∧ candidateAt xs total j y = some e := by
  simp only [candidates, List.mem_filterMap, List.mem_zipIdx_iff_getElem?, Prod.exists]
  constructor
  · rintro ⟨y, j, hy, h⟩
    exact ⟨j, y, hy, h⟩
  · rintro ⟨j, y, hy, h⟩
    exact ⟨y, j, hy, h⟩

theorem candidatesRight_iff (hxs : (xs.map ProcCpu.pid).Nodup)
    (hys : (ys.map ProcCpu.pid).Nodup) :
    CandidatesRight xs ys total.toNat (candidates xs ys total) ↔ WellPlaced xs ys total := by
  have hown {j : Nat} {y : ProcCpu} {e : CpuloadEntry} (hy : ys[j]? = some y)
      (he : e ∈ candidates xs ys total) (hpid : e.pid = y.pid) :
      candidateAt xs total j y = some e := by
    obtain ⟨j', y', hy', hcand⟩ := mem_candidates.1 he
    have hkey := (pid_of_candidateAt hcand).symm.trans hpid
    obtain rfl := index_of_key hys hy hy' hkey
    rw [hy, Option.some.injEq] at hy'
    rwa [hy']
  constructor
  · intro hright i j x y hx hy hpid hshare
    obtain ⟨hused, hback⟩ := hright x (List.mem_of_getElem? hx) y (List.mem_of_getElem? hy) hpid
    constructor
    · intro hle
      obtain ⟨e, he, hepid, -⟩ := hused hle (by rwa [← share_eq_growth hle])
      have hcand := hown hy he hepid
      rw [candidateAt_of_find hxs hx hpid] at hcand
      by_contra hlt
      rw [if_neg fun h => hlt h.1] at hcand
      simp at hcand
    · intro hlt
      by_contra hplace
      have hcand : candidateAt xs total j y = some (y.result (share x y total)) := by
        rw [candidateAt_of_find hxs hx hpid, if_pos ⟨by omega, hshare⟩]
      exact hback hlt _ (mem_candidates.2 ⟨j, y, hy, hcand⟩) rfl
  · intro hplaced x hx y hy hpid
    obtain ⟨i, hi⟩ := List.mem_iff_getElem?.1 hx
    obtain ⟨j, hj⟩ := List.mem_iff_getElem?.1 hy
    constructor
    · intro hle hgrowth
      rw [← share_eq_growth hle] at hgrowth ⊢
      have hlt := (hplaced i j x y hi hj hpid hgrowth).1 hle
      refine ⟨y.result (share x y total), mem_candidates.2 ⟨j, y, hj, ?_⟩, rfl, rfl⟩
      rw [candidateAt_of_find hxs hi hpid, if_pos ⟨hlt, hgrowth⟩]
    · intro hlt e he hepid
      have hcand := hown hj he hepid
      rw [candidateAt_of_find hxs hi hpid] at hcand
      split at hcand
      · rename_i hcond
        have := (hplaced i j x y hi hj hpid hcond.2).2 hlt
        omega
      · simp at hcand

end

/-- The results are the largest candidates, whatever the candidates are. -/
theorem largest_top (qsort : Qsort) (cands : List CpuloadEntry) (n : Nat) :
    Largest n cands ((qsort.sort compareCpu cands).take n) := by
  have hperm := qsort.perm compareCpu cands
  have hsorted := qsort.sorted compareCpu cands (orders_compareDescending _)
  simp only [compareCpu, compareDescending_le_zero] at hsorted
  refine ⟨?_, hsorted.sublist (List.take_sublist _ _),
    (qsort.sort compareCpu cands).drop n, ?_, fun a ha b hb => ?_⟩
  · rw [List.length_take, hperm.length_eq]
  · rwa [List.take_append_drop]
  · rw [← List.take_append_drop n (qsort.sort _ cands), List.pairwise_append] at hsorted
    exact hsorted.2.2 a ha b hb

/-- One sample, in which the system's total time has grown. -/
theorem After.right_iff {xs : List ProcCpu} {before : CpuloadPriv} (h : After true xs before)
    (hxs : (xs.map ProcCpu.pid).Nodup) (hxlen : xs.length ≤ maxProcs) (qsort : Qsort) (q : Pass)
    (hq : SampleOk q.2)
    (hgrown : before.currSys.total < (Pass.collect qsort before q).currSys.total) :
    CandidatesRight xs q.readings
        (((Pass.collect qsort before q).currSys.total.toNat : ℚ) - before.currSys.total.toNat)
        (cpuloadScan before q.1 q.2).allEntries ∧
        Largest topN (cpuloadScan before q.1 q.2).allEntries
          (Pass.collect qsort before q).topConsumers ↔
      WellPlaced xs q.readings
        ((Pass.collect qsort before q).currSys.total - before.currSys.total) := by
  have hscan := h.scanning hxs hxlen hq
  have hkeep : (Pass.collect qsort before q).currSys = (systemSample before q.1).1.currSys :=
    (scan_system _ q.2 _ 0).1
  have htotal : (Pass.collect qsort before q).currSys.total - before.currSys.total =
      totalDelta before q := by
    rw [hkeep]
    rfl
  have hle : before.currSys.total ≤ (Pass.collect qsort before q).currSys.total :=
    UInt64.le_of_lt hgrown
  have hpos : totalDelta before q > 0 := by
    rw [← htotal, gt_iff_lt, UInt64.lt_iff_toNat_lt, UInt64.toNat_sub_of_le _ _ hle]
    have := UInt64.lt_iff_toNat_lt.1 hgrown
    simp only [UInt64.toNat_zero]
    omega
  have hcands : (cpuloadScan before q.1 q.2).allEntries =
      candidates xs q.readings (totalDelta before q) := by
    rw [hscan.allEntries, if_pos ⟨rfl, hpos⟩]
  have hlargest : Largest topN (cpuloadScan before q.1 q.2).allEntries
      (Pass.collect qsort before q).topConsumers := largest_top qsort _ topN
  rw [and_iff_left hlargest, hcands, ← toNat_sub_cast hle, htotal]
  exact candidatesRight_iff hxs hq.distinct

theorem run_next (qsort : Qsort) (ticks : Int64) {passes : List Pass} {k : Nat} {q : Pass}
    (hq : passes[k + 1]? = some q) : cpuloadRun qsort ticks (passes.take (k + 2)) =
      Pass.collect qsort (cpuloadRun qsort ticks (passes.take (k + 1))) q := by
  show cpuloadRun qsort ticks (passes.take (k + 1 + 1)) = _
  rw [List.take_add_one, hq, cpuloadRun, List.foldl_append]
  rfl

/-- **The candidates of a run**, in a sample in which the system's total time has grown: they
are the right ones, and the results the largest of them, exactly when the processes are well
placed. -/
theorem run_candidates_right_iff (qsort : Qsort) (ticks : Int64) (passes : List Pass)
    (hok : ∀ p ∈ passes, SampleOk p.2) (k : Nat) (p q : Pass) (hp : passes[k]? = some p)
    (hq : passes[k + 1]? = some q)
    (hgrown : (cpuloadRun qsort ticks (passes.take (k + 1))).currSys.total <
      (cpuloadRun qsort ticks (passes.take (k + 2))).currSys.total) :
    let before := cpuloadRun qsort ticks (passes.take (k + 1))
    let after := cpuloadRun qsort ticks (passes.take (k + 2))
    let cands := (cpuloadScan before q.1 q.2).allEntries
    CandidatesRight p.readings q.readings
        ((after.currSys.total.toNat : ℚ) - before.currSys.total.toNat) cands ∧
        Largest topN cands after.topConsumers ↔
      WellPlaced p.readings q.readings (after.currSys.total - before.currSys.total) := by
  have hpok := hok p (List.mem_of_getElem? hp)
  have hqok := hok q (List.mem_of_getElem? hq)
  rw [run_next qsort ticks hq] at hgrown ⊢
  exact (after_run qsort ticks hok hp).right_iff hpok.distinct hpok.room qsort q hqok hgrown

/-- A pid 1 that has used half of the time, first in both samples. -/
def halfBusy : List Pass := [
  (some [100, 0, 0, 100, 0, 0, 0], [{ pid := 1, stat := some ⟨10, 0, CStr.lit "a"⟩ }]),
  (some [200, 0, 0, 200, 0, 0, 0], [{ pid := 1, stat := some ⟨110, 0, CStr.lit "a"⟩ }])]

theorem halfBusy_ok : ∀ p ∈ halfBusy, SampleOk p.2 := by
  intro p hp
  simp only [halfBusy, List.mem_cons, List.not_mem_nil, or_false] at hp
  rcases hp with rfl | rfl <;> exact ⟨by decide, by decide⟩

theorem halfBusy_grown :
    (cpuloadRun .merge 100 (halfBusy.take 1)).currSys.total <
      (cpuloadRun .merge 100 (halfBusy.take 2)).currSys.total := by
  decide

theorem run_candidates_right_iff_halfBusy :
    let before := cpuloadRun .merge 100 (halfBusy.take 1)
    let after := cpuloadRun .merge 100 (halfBusy.take 2)
    let cands := (cpuloadScan before halfBusy[1].1 halfBusy[1].2).allEntries
    CandidatesRight (Pass.readings halfBusy[0]) (Pass.readings halfBusy[1])
        ((after.currSys.total.toNat : ℚ) - before.currSys.total.toNat) cands ∧
        Largest topN cands after.topConsumers ↔
      WellPlaced (Pass.readings halfBusy[0]) (Pass.readings halfBusy[1])
        (after.currSys.total - before.currSys.total) :=
  run_candidates_right_iff .merge 100 halfBusy halfBusy_ok 0 halfBusy[0] halfBusy[1] rfl rfl
    halfBusy_grown

/-- The process is no candidate: the search for its old entry comes back with the new one. -/
theorem halfBusy_candidates_wrong :
    ¬ ∀ passes : List Pass, (∀ p ∈ passes, SampleOk p.2) →
      ∀ k p q, passes[k]? = some p → passes[k + 1]? = some q →
        let before := cpuloadRun .merge 100 (passes.take (k + 1))
        let after := cpuloadRun .merge 100 (passes.take (k + 2))
        let cands := (cpuloadScan before q.1 q.2).allEntries
        before.currSys.total < after.currSys.total →
          CandidatesRight p.readings q.readings
              ((after.currSys.total.toNat : ℚ) - before.currSys.total.toNat) cands ∧
            Largest topN cands after.topConsumers := by
  intro h
  have hright := h halfBusy halfBusy_ok 0 halfBusy[0] halfBusy[1] rfl rfl halfBusy_grown
  have hgrown := halfBusy_grown
  have hnext : cpuloadRun .merge 100 (halfBusy.take 2) =
      Pass.collect .merge (cpuloadRun .merge 100 (halfBusy.take 1)) halfBusy[1] :=
    run_next .merge 100 rfl
  rw [hnext] at hgrown
  have hp := halfBusy_ok halfBusy[0] (List.getElem_mem _)
  have hq := halfBusy_ok halfBusy[1] (List.getElem_mem _)
  simp only [hnext] at hright
  have hplaced := ((after_run .merge 100 halfBusy_ok (k := 0) rfl).right_iff hp.distinct hp.room
    .merge halfBusy[1] hq hgrown).1 hright
  have htotal : (Pass.collect .merge (cpuloadRun .merge 100 (halfBusy.take 1))
      halfBusy[1]).currSys.total - (cpuloadRun .merge 100 (halfBusy.take 1)).currSys.total =
        200 := by decide
  have hshare : share (PidStat.entry ⟨10, 0, CStr.lit "a"⟩ 1)
      (PidStat.entry ⟨110, 0, CStr.lit "a"⟩ 1) 200 > 1 / 100 := by
    show 100 * ((100 : ℕ) : ℚ) / (200 : ℕ) > 1 / 100
    norm_num
  have hcase := hplaced 0 0 _ _ rfl rfl rfl (htotal ▸ hshare)
  exact absurd (hcase.1 (by decide)) (by decide)

end Cpuload

end Qmem
