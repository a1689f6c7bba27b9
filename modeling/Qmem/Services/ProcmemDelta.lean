import Qmem.Services.Procmem

/-!
# What `procmem` records as growth

The abstract scan is the list of the readings it made, in order. A reading's growth is measured
against the first reading of that process behind its own position in the scan before, because
only the pool entries behind that position have not been overwritten yet (`deltaAt`). So the
deltas of a scan are right exactly when no process that changed sits at the same place or
further on than it did before (`deltasRight_iff`).
-/

namespace Qmem

open CLib PoolTable

namespace Procmem

/-- What one scan learns of one process. -/
structure Reading where
  pid : Int32
  rssKb : Int64
  dataKb : Int64
deriving DecidableEq

def ProcSample.reading (p : ProcSample) : Reading := ⟨p.pid, p.vmRss, p.vmData⟩

def ProcEntry.reading (e : ProcEntry) : Reading := ⟨e.pid, e.rssKb, e.dataKb⟩

/-- Both fields could be read. -/
def ProcSample.Readable (p : ProcSample) : Prop := ¬ (p.vmRss < 0 ∨ p.vmData < 0)

instance (p : ProcSample) : Decidable p.Readable := inferInstanceAs (Decidable (¬ _))

/-- The processes a scan reads, in the order in which it reads them. -/
def readings (dir : Option (List ProcSample)) : List Reading :=
  ((dir.getD []).filter fun p => p.Readable).map ProcSample.reading

/-- The deltas recorded for the reading `y` at position `j`, after a scan that read `xs`. -/
def deltaAt (xs : List Reading) (j : Nat) (y : Reading) : Int64 × Int64 :=
  match (xs.drop (j + 1)).find? fun x => x.pid = y.pid with
  | some x => (y.rssKb - x.rssKb, y.dataKb - x.dataKb)
  | none => (0, 0)

def ProcmemEntry.change (e : ProcmemEntry) : Reading × Int64 × Int64 :=
  (⟨e.pid, e.rssKb, e.dataKb⟩, e.rssDeltaKb, e.dataDeltaKb)

def recordedChanges (xs ys : List Reading) : List (Reading × Int64 × Int64) :=
  ys.zipIdx.map fun y => (y.1, deltaAt xs y.2 y.1)

theorem recordedChanges_append (xs ys : List Reading) (y : Reading) :
    recordedChanges xs (ys ++ [y]) = recordedChanges xs ys ++ [(y, deltaAt xs ys.length y)] := by
  simp [recordedChanges, List.zipIdx_append]

/-- The invariant of a scan, after the scan that read `xs`. -/
structure Scanning (xs ys : List Reading) (ctx : CollectCtx) : Prop where
  round : ∃ es fs : List ProcEntry, es.map ProcEntry.reading = xs ∧
    fs.map ProcEntry.reading = ys ∧ ctx.priv.tables.Round ProcEntry.pid hashPid es fs
  first : ctx.priv.hasPrevious = false → xs = []
  changes : ctx.changes.map ProcmemEntry.change = recordedChanges xs ys
  maxChanges : ctx.maxChanges = maxProcs

theorem pid_map (es : List ProcEntry) :
    es.map ProcEntry.pid = (es.map ProcEntry.reading).map Reading.pid := by
  rw [List.map_map]
  rfl

/-- The deltas computed for an entry that has just been stored. -/
theorem deltas_eq (priv : ProcmemPriv) {es fs : List ProcEntry} {e : ProcEntry}
    (h : priv.tables.Round ProcEntry.pid hashPid es (fs ++ [e]))
    (hes : (es.map ProcEntry.pid).Nodup) (hfs : e.pid ∉ fs.map ProcEntry.pid)
    (hlen : es.length ≤ maxProcs * 2) (hlen' : fs.length < maxProcs * 2)
    (hfirst : priv.hasPrevious = false → es = []) :
    deltas priv e = deltaAt (es.map ProcEntry.reading) fs.length e.reading := by
  have hfind : findInHash priv priv.tables.previous e.pid = _ :=
    h.refilling.find_prev hes hfs hlen hlen'
  have hspec : deltaAt (es.map ProcEntry.reading) fs.length e.reading =
      (((es.drop (fs.length + 1)).find? fun x => x.pid = e.pid).map fun x =>
        (e.rssKb - x.rssKb, e.dataKb - x.dataKb)).getD (0, 0) := by
    have hmap : ((es.drop (fs.length + 1)).map ProcEntry.reading).find?
        (fun x => x.pid = e.reading.pid) =
          ((es.drop (fs.length + 1)).find? fun x => x.pid = e.pid).map ProcEntry.reading := by
      rw [List.find?_map]
      rfl
    rw [deltaAt, ← List.map_drop, hmap]
    cases (es.drop (fs.length + 1)).find? fun x => x.pid = e.pid <;> rfl
  rw [hspec, deltas]
  cases hprev : priv.hasPrevious with
  | false =>
    rw [hfirst hprev]
    simp
  | true =>
    rw [if_pos rfl, hfind]
    cases (es.drop (fs.length + 1)).find? fun x => x.pid = e.pid with
    | some x => rfl
    | none =>
      -- the search ends, or it comes back with the new entry itself
      rw [Option.none_or]
      split_ifs <;> simp

theorem take_concat (ys : List Reading) (y : Reading) (n : Nat) :
    (ys ++ [y]).take n = if ys.length < n then ys ++ [y] else ys.take n := by
  by_cases h : ys.length < n
  · rw [if_pos h, List.take_of_length_le (by rw [List.length_append]; exact h)]
  · rw [if_neg h, List.take_append_of_le_length (Nat.not_lt.1 h)]

/-- The same of a scan of any size: the pool has room for twice as many processes as the list of
changes. -/
structure Collecting (xs ys : List Reading) (ctx : CollectCtx) : Prop where
  round : ∃ es fs : List ProcEntry, es.map ProcEntry.reading = xs ∧
    fs.map ProcEntry.reading = ys ∧ ctx.priv.tables.Round ProcEntry.pid hashPid es fs
  first : ctx.priv.hasPrevious = false → xs = []
  recorded : ctx.changes.map (fun e => e.change.1) = ys.take maxProcs
  deltas : (xs.map Reading.pid).Nodup → (ys.map Reading.pid).Nodup →
    ctx.changes.map ProcmemEntry.change = recordedChanges xs (ys.take maxProcs)
  maxChanges : ctx.maxChanges = maxProcs

/-- One readable process more. -/
theorem Collecting.step {xs ys : List Reading} {ctx : CollectCtx} (h : Collecting xs ys ctx)
    {p : ProcSample} (hp : p.Readable) (hxlen : xs.length ≤ maxProcs * 2)
    (hylen : ys.length < maxProcs * 2) :
    Collecting xs (ys ++ [p.reading]) (collectCallback ctx p).1 := by
  obtain ⟨es, fs, rfl, rfl, hround⟩ := h.round
  rw [List.length_map] at hxlen hylen
  have hroom : allocEntry ctx.priv = some fs.length := by
    rw [allocEntry, hround.poolIdx_eq, if_neg (by omega)]
  have hcount : ctx.changes.length < ctx.maxChanges ↔ fs.length < maxProcs := by
    have hlen := congrArg List.length h.recorded
    rw [List.length_map, List.length_take, List.length_map] at hlen
    rw [hlen, h.maxChanges]
    omega
  unfold collectCallback
  simp only [if_neg hp, hroom, hcount]
  have hadd := hround.add (p.entry (ctx.priv.tables.pool fs.length).val.cmd)
  refine ⟨⟨es, fs ++ [_], rfl, by rw [List.map_append]; rfl, hadd⟩, h.first, ?_, ?_, h.maxChanges⟩
  · rw [take_concat, List.length_map]
    by_cases hlt : fs.length < maxProcs
    · rw [if_pos hlt, if_pos hlt, List.map_append, h.recorded,
        List.take_of_length_le (by rw [List.length_map]; exact hlt.le)]
      rfl
    · rw [if_neg hlt, if_neg hlt, h.recorded]
  · intro hxs hys
    rw [List.map_append, List.nodup_append] at hys
    rw [← pid_map] at hxs
    have hnew : p.pid ∉ fs.map ProcEntry.pid := by
      rw [pid_map]
      intro hmem
      exact hys.2.2 p.pid hmem p.reading.pid (by simp) rfl
    have hrecorded := h.deltas (pid_map es ▸ hxs) hys.1
    have hdelta := deltas_eq (insertHash ctx.priv _) hadd hxs hnew hxlen hylen
      fun hprev => List.map_eq_nil_iff.1 (h.first hprev)
    rw [take_concat, List.length_map]
    by_cases hlt : fs.length < maxProcs
    · rw [List.take_of_length_le (by rw [List.length_map]; exact hlt.le)] at hrecorded
      rw [if_pos hlt, if_pos hlt, recordedChanges_append, List.map_append, hrecorded,
        List.length_map]
      simp only [List.map_singleton, ProcmemEntry.change, result, hdelta]
      rfl
    · rw [if_neg hlt, if_neg hlt, hrecorded]

/-- The scan ends when the pool is full: what one readable process keeps, as long as there is room,
the whole scan keeps. -/
theorem iterate_readable {P : List ProcSample → CollectCtx → Prop}
    (hidx : ∀ done ctx, P done ctx → ctx.priv.tables.poolIdx = done.length)
    (hstep : ∀ done ctx p, P done ctx → p.Readable → done.length < maxProcs * 2 →
      P (done ++ [p]) (collectCallback ctx p).1)
    {done : List ProcSample} {ctx : CollectCtx} (h : P done ctx)
    (hlen : done.length ≤ maxProcs * 2) (ps : List ProcSample) (count : Nat) :
    P ((done ++ ps.filter fun p => p.Readable).take (maxProcs * 2))
      (iteratePids collectCallback ps ctx count).1 := by
  induction ps generalizing ctx done count with
  | nil => simpa [iteratePids, List.take_of_length_le hlen] using h
  | cons p ps ih =>
    by_cases hp : p.Readable
    · have hsplit : done ++ (p :: ps).filter (fun p => p.Readable) =
          (done ++ [p]) ++ ps.filter fun p => p.Readable := by simp [hp]
      by_cases hroom : done.length < maxProcs * 2
      · have hgo : (collectCallback ctx p).2 = true := by
          have hslot : allocEntry ctx.priv = some done.length := by
            rw [allocEntry, hidx done ctx h, if_neg (by omega)]
          rw [collectCallback, if_neg hp, hslot]
        rw [hsplit, iteratePids_go hgo]
        exact ih (hstep done ctx p h hp hroom)
          (by rw [List.length_append]; exact hroom) (count + 1)
      · have hfull : collectCallback ctx p = (ctx, false) := by
          have hnone : allocEntry ctx.priv = none := by
            rw [allocEntry, hidx done ctx h, if_pos (by omega)]
          rw [collectCallback, if_neg hp, hnone]
        rw [List.take_append_of_le_length (by omega), List.take_of_length_le hlen, iteratePids,
          hfull]
        exact h
    · have hskip : collectCallback ctx p = (ctx, true) := by
        rw [collectCallback, if_pos (not_not.1 hp)]
      have hsame : (p :: ps).filter (fun p => p.Readable) = ps.filter fun p => p.Readable := by
        simp [hp]
      rw [hsame, iteratePids, hskip]
      exact ih h hlen (count + 1)

theorem Collecting.poolIdx_eq {xs ys : List Reading} {ctx : CollectCtx} (h : Collecting xs ys ctx) :
    ctx.priv.tables.poolIdx = ys.length := by
  obtain ⟨es, fs, -, hfs, hround⟩ := h.round
  rw [hround.poolIdx_eq, ← hfs, List.length_map]

theorem Collecting.iterate {xs : List Reading} {ctx : CollectCtx} (h : Collecting xs [] ctx)
    (ps : List ProcSample) (hxlen : xs.length ≤ maxProcs * 2) (count : Nat) :
    Collecting xs ((readings (some ps)).take (maxProcs * 2))
      (iteratePids collectCallback ps ctx count).1 := by
  have hstart : Collecting xs (([] : List ProcSample).map ProcSample.reading) ctx := h
  have hscan := iterate_readable
    (P := fun done ctx => Collecting xs (done.map ProcSample.reading) ctx)
    (fun done ctx h => by rw [h.poolIdx_eq, List.length_map])
    (fun done ctx p h hp hroom => by
      rw [List.map_append]
      exact h.step hp hxlen (by rwa [List.length_map]))
    hstart (Nat.zero_le _) ps count
  rwa [List.nil_append, List.map_take] at hscan

/-- Where no scan is too large, this is all of it. -/
theorem Collecting.scanning {xs ys : List Reading} {ctx : CollectCtx} (h : Collecting xs ys ctx)
    (hxs : (xs.map Reading.pid).Nodup) (hys : (ys.map Reading.pid).Nodup)
    (hylen : ys.length ≤ maxProcs) : Scanning xs ys ctx := by
  have hdeltas := h.deltas hxs hys
  rw [List.take_of_length_le hylen] at hdeltas
  exact ⟨h.round, h.first, hdeltas, h.maxChanges⟩

/-- What is in one of the lists has been scanned. -/
theorem changes_of_listed (qsort : Qsort) {priv : ProcmemPriv} {dir : Option (List ProcSample)}
    {e : ProcmemEntry} (he : e ∈ (procmemCollect qsort priv dir).growers ∨
      e ∈ (procmemCollect qsort priv dir).shrinkers ∨
      e ∈ (procmemCollect qsort priv dir).topRss) : e ∈ (procmemScan priv dir).changes := by
  rcases he with he | he | he
  · have he := List.mem_of_mem_filter (List.mem_of_mem_take he)
    exact (qsort.perm _ _).mem_iff.1 he
  · have he := List.mem_of_mem_filter (List.mem_of_mem_take he)
    exact (qsort.perm _ _).mem_iff.1 ((qsort.perm _ _).mem_iff.1 he)
  · have he := (qsort.perm _ _).mem_iff.1 (List.mem_of_mem_take he)
    exact (qsort.perm _ _).mem_iff.1 ((qsort.perm _ _).mem_iff.1 he)

/-! ## Runs -/

/-- A scan the service is made for: distinct processes, and no more than it has room for. -/
structure ScanOk (dir : Option (List ProcSample)) : Prop where
  distinct : ((readings dir).map Reading.pid).Nodup
  room : (readings dir).length ≤ maxProcs

/-- The state after a scan that read `xs`. -/
structure After (xs : List Reading) (priv : ProcmemPriv) : Prop where
  settled : ∃ es : List ProcEntry, es.map ProcEntry.reading = xs ∧
    priv.tables.Settled ProcEntry.pid hashPid es
  first : priv.hasPrevious = false → xs = []

def procmemRun (qsort : Qsort) (dirs : List (Option (List ProcSample))) : ProcmemPriv :=
  dirs.foldl (procmemCollect qsort) procmemInit

/-- What the scan before the `k`-th read. -/
def readBefore (dirs : List (Option (List ProcSample))) : Nat → List Reading
  | 0 => []
  | k + 1 => ((dirs[k]?).map readings).getD []

theorem after_init : After [] procmemInit where
  settled := ⟨[], rfl, Tables.settled_init _⟩
  first _ := rfl

/-- The processes a scan enters into the table. -/
def entered (dir : Option (List ProcSample)) : List Reading := (readings dir).take (maxProcs * 2)

theorem entered_length_le (dir : Option (List ProcSample)) :
    (entered dir).length ≤ maxProcs * 2 := List.length_take_le _ _

theorem ScanOk.entered_eq {dir : Option (List ProcSample)} (h : ScanOk dir) :
    entered dir = readings dir := by
  have hroom := h.room
  exact List.take_of_length_le (by omega)

theorem After.collecting {xs : List Reading} {priv : ProcmemPriv} (h : After xs priv)
    (hxlen : xs.length ≤ maxProcs * 2) (dir : Option (List ProcSample)) :
    Collecting xs (entered dir) (procmemScan priv dir) := by
  obtain ⟨es, hes, hsettled⟩ := h.settled
  have hstart : Collecting xs [] {
      priv := { priv with tables := priv.tables.swap }, changes := [], maxChanges := maxProcs } :=
    ⟨⟨es, [], hes, rfl, hsettled.swap⟩, h.first, rfl, fun _ _ => rfl, rfl⟩
  cases dir with
  | none => exact hstart
  | some ps => exact hstart.iterate ps hxlen 0

theorem After.collect {xs : List Reading} {priv : ProcmemPriv} (h : After xs priv)
    (hxlen : xs.length ≤ maxProcs * 2) (dir : Option (List ProcSample)) (qsort : Qsort) :
    After (entered dir) (procmemCollect qsort priv dir) := by
  obtain ⟨es, fs, -, hfs, hround⟩ := (h.collecting hxlen dir).round
  exact ⟨⟨fs, hfs, hround.settled⟩, fun hprev => absurd hprev (by simp [procmemCollect])⟩

theorem After.scanning {xs : List Reading} {priv : ProcmemPriv} (h : After xs priv)
    (hxs : (xs.map Reading.pid).Nodup) (hxlen : xs.length ≤ maxProcs)
    {dir : Option (List ProcSample)} (hdir : ScanOk dir) :
    Scanning xs (readings dir) (procmemScan priv dir) := by
  have hcollecting := h.collecting (by omega) dir
  rw [hdir.entered_eq] at hcollecting
  exact hcollecting.scanning hxs hdir.distinct hdir.room

/-- What the last scan of a run entered. -/
def lastEntered (dirs : List (Option (List ProcSample))) : List Reading :=
  (dirs.getLast?.map entered).getD []

theorem lastEntered_length_le (dirs : List (Option (List ProcSample))) :
    (lastEntered dirs).length ≤ maxProcs * 2 := by
  rw [lastEntered]
  cases dirs.getLast? with
  | none => exact Nat.zero_le _
  | some dir => exact entered_length_le dir

/-- Scans of any size, of any processes. -/
theorem after_any (qsort : Qsort) (dirs : List (Option (List ProcSample))) :
    After (lastEntered dirs) (procmemRun qsort dirs) := by
  induction dirs using List.reverseRecOn with
  | nil => exact after_init
  | append_singleton dirs dir ih =>
    have hnext := ih.collect (lastEntered_length_le dirs) dir qsort
    rw [procmemRun, List.foldl_append, lastEntered, List.getLast?_concat]
    exact hnext

section

variable {dirs : List (Option (List ProcSample))} (hok : ∀ dir ∈ dirs, ScanOk dir)
include hok

theorem readBefore_ok (k : Nat) :
    ((readBefore dirs k).map Reading.pid).Nodup ∧ (readBefore dirs k).length ≤ maxProcs := by
  cases k with
  | zero => exact ⟨List.nodup_nil, Nat.zero_le _⟩
  | succ k =>
    rw [readBefore]
    cases hdir : dirs[k]? with
    | none => exact ⟨List.nodup_nil, Nat.zero_le _⟩
    | some dir =>
      have h := hok dir (List.mem_of_getElem? hdir)
      exact ⟨h.distinct, h.room⟩

theorem after_run (qsort : Qsort) {k : Nat} (hk : k ≤ dirs.length) :
    After (readBefore dirs k) (procmemRun qsort (dirs.take k)) := by
  induction k with
  | zero => exact after_init
  | succ k ih =>
    have hdir : dirs[k]? = some dirs[k] := List.getElem?_eq_getElem (by omega)
    obtain ⟨hxs, hxlen⟩ := readBefore_ok hok k
    have hnext := (ih (by omega)).collect (by omega) dirs[k] qsort
    rw [(hok _ (List.mem_of_getElem? hdir)).entered_eq] at hnext
    rw [readBefore, hdir, List.take_add_one, hdir, procmemRun, List.foldl_append]
    exact hnext

/-- **What a run records**: of every scan, the readings with the deltas of `deltaAt`. -/
theorem run_changes (qsort : Qsort) {k : Nat} {dir : Option (List ProcSample)}
    (hdir : dirs[k]? = some dir) :
    (procmemScan (procmemRun qsort (dirs.take k)) dir).changes.map ProcmemEntry.change =
      recordedChanges (readBefore dirs k) (readings dir) := by
  have hk : k < dirs.length := (List.getElem?_eq_some_iff.1 hdir).1
  obtain ⟨hxs, hxlen⟩ := readBefore_ok hok k
  exact ((after_run hok qsort hk.le).scanning hxs hxlen (hok _ (List.mem_of_getElem? hdir))).changes

end

/-! ## When the deltas are right -/

/-- A process both scans read has grown by its value now minus its value then; one that only this
scan read has not grown. -/
def DeltasRight (xs ys : List Reading) (changes : List ProcmemEntry) : Prop :=
  changes.map (fun e => e.change.1) = ys ∧ ∀ e ∈ changes,
    (∀ x ∈ xs, x.pid = e.pid →
      e.rssDeltaKb.toInt = e.rssKb.toInt - x.rssKb.toInt ∧
      e.dataDeltaKb.toInt = e.dataKb.toInt - x.dataKb.toInt) ∧
    ((∀ x ∈ xs, x.pid ≠ e.pid) → e.rssDeltaKb = 0 ∧ e.dataDeltaKb = 0)

/-- Every process that both scans read has moved to an earlier place or has not changed. -/
def MovedUpOrSame (xs ys : List Reading) : Prop :=
  ∀ (i j : Nat) (x y : Reading), xs[i]? = some x → ys[j]? = some y → x.pid = y.pid →
    j < i ∨ (x.rssKb = y.rssKb ∧ x.dataKb = y.dataKb)

/-- Differences of sizes do not overflow. -/
theorem toInt_sub {a b : Int64} (ha : 0 ≤ a.toInt) (hb : 0 ≤ b.toInt) :
    (a - b).toInt = a.toInt - b.toInt := by
  have := a.toInt_lt
  have := b.toInt_lt
  rw [Int64.toInt_sub, Int.bmod_eq_of_le (by omega) (by omega)]

theorem reading_nonneg {dir : Option (List ProcSample)} {y : Reading} (hy : y ∈ readings dir) :
    0 ≤ y.rssKb.toInt ∧ 0 ≤ y.dataKb.toInt := by
  obtain ⟨p, hp, rfl⟩ := List.mem_map.1 hy
  have hp : p.Readable := by simpa using (List.mem_filter.1 hp).2
  simp only [ProcSample.Readable, not_or, Int64.not_lt, Int64.le_iff_toInt_le] at hp
  exact hp

section

variable {xs : List Reading} {x y : Reading} {i j : Nat}

theorem deltaAt_of_find (hxs : (xs.map Reading.pid).Nodup) (hx : xs[i]? = some x)
    (hpid : x.pid = y.pid) :
    deltaAt xs j y = if j < i then (y.rssKb - x.rssKb, y.dataKb - x.dataKb) else (0, 0) := by
  rw [deltaAt, find_drop_of_key hxs hx hpid]
  by_cases h : j < i
  · rw [if_pos h, if_pos h]
  · rw [if_neg h, if_neg h]

theorem deltaAt_of_absent (h : ∀ x ∈ xs, x.pid ≠ y.pid) : deltaAt xs j y = (0, 0) := by
  have hnone : (xs.drop (j + 1)).find? (fun x => x.pid = y.pid) = none := by
    rw [List.find?_eq_none]
    intro x hx
    simpa using h x (List.mem_of_mem_drop hx)
  rw [deltaAt, hnone]

end

/-- **When the deltas of a scan are right**, for deltas recorded as `run_changes` says. -/
theorem deltasRight_iff {xs ys : List Reading} {changes : List ProcmemEntry}
    (hchanges : changes.map ProcmemEntry.change = recordedChanges xs ys)
    (hxs : (xs.map Reading.pid).Nodup)
    (hxpos : ∀ x ∈ xs, 0 ≤ x.rssKb.toInt ∧ 0 ≤ x.dataKb.toInt)
    (hypos : ∀ y ∈ ys, 0 ≤ y.rssKb.toInt ∧ 0 ≤ y.dataKb.toInt) :
    DeltasRight xs ys changes ↔ MovedUpOrSame xs ys := by
  have hentry {j : Nat} {e : ProcmemEntry} (he : changes[j]? = some e) :
      ∃ y, ys[j]? = some y ∧ e.change = (y, deltaAt xs j y) := by
    have hget := congrArg (·[j]?) hchanges
    simp only [List.getElem?_map, he, Option.map_some, recordedChanges,
      List.getElem?_zipIdx, Nat.zero_add] at hget
    cases hy : ys[j]? with
    | none => simp [hy] at hget
    | some y => exact ⟨y, rfl, by simpa [hy] using hget⟩
  have hback {j : Nat} {y : Reading} (hy : ys[j]? = some y) : ∃ e, changes[j]? = some e := by
    have hlen := congrArg List.length hchanges
    simp only [List.length_map, recordedChanges, List.length_zipIdx] at hlen
    have hlt := (List.getElem?_eq_some_iff.1 hy).1
    exact ⟨_, List.getElem?_eq_getElem (by omega)⟩
  have hreadings : changes.map (fun e => e.change.1) = ys := by
    have hfst := congrArg (List.map Prod.fst) hchanges
    rw [List.map_map, recordedChanges, List.map_map] at hfst
    exact hfst.trans (by simp [Function.comp_def])
  constructor
  · rintro ⟨-, hright⟩ i j x y hx hy hpid
    by_contra hnot
    rw [not_or] at hnot
    obtain ⟨e, he⟩ := hback hy
    obtain ⟨y', hy', hchange⟩ := hentry he
    rw [hy, Option.some.injEq] at hy'
    subst hy'
    rw [deltaAt_of_find hxs hx hpid, if_neg hnot.1] at hchange
    obtain ⟨rfl, hrss, hdata⟩ := by simpa only [ProcmemEntry.change, Prod.mk.injEq] using hchange
    obtain ⟨h₁, h₂⟩ := (hright e (List.mem_of_getElem? he)).1 x (List.mem_of_getElem? hx) hpid
    rw [hrss] at h₁
    rw [hdata] at h₂
    refine hnot.2 ⟨Int64.toInt_inj.1 ?_, Int64.toInt_inj.1 ?_⟩
    · simp only [Int64.toInt_zero] at h₁
      exact (sub_eq_zero.1 h₁.symm).symm
    · simp only [Int64.toInt_zero] at h₂
      exact (sub_eq_zero.1 h₂.symm).symm
  · intro hmoved
    refine ⟨hreadings, fun e he => ?_⟩
    obtain ⟨j, hj⟩ := List.mem_iff_getElem?.1 he
    obtain ⟨y, hy, hchange⟩ := hentry hj
    obtain ⟨rfl, hdelta⟩ := by simpa only [ProcmemEntry.change, Prod.mk.injEq] using hchange
    have hypos := hypos _ (List.mem_of_getElem? hy)
    refine ⟨fun x hx hpid => ?_, fun habsent => ?_⟩
    · obtain ⟨i, hi⟩ := List.mem_iff_getElem?.1 hx
      have hxpos := hxpos x hx
      rw [deltaAt_of_find hxs hi hpid] at hdelta
      split at hdelta
      · obtain ⟨hrss, hdata⟩ := by simpa only [Prod.mk.injEq] using hdelta
        rw [hrss, hdata, toInt_sub hypos.1 hxpos.1, toInt_sub hypos.2 hxpos.2]
        exact ⟨rfl, rfl⟩
      · rename_i hlt
        obtain ⟨hrss, hdata⟩ := by simpa only [Prod.mk.injEq] using hdelta
        obtain ⟨hsame₁, hsame₂⟩ := (hmoved i j x _ hi hy hpid).resolve_left hlt
        rw [hrss, hdata, hsame₁, hsame₂]
        simp
    · rw [deltaAt_of_absent habsent] at hdelta
      simpa only [Prod.mk.injEq] using hdelta

/-- **The deltas of a run**: those of scan `k` are right exactly when every process that scan
`k - 1` read as well has moved to an earlier place in the scan or has not changed. -/
theorem run_deltas_right_iff (qsort : Qsort) (dirs : List (Option (List ProcSample)))
    (hok : ∀ dir ∈ dirs, ScanOk dir) (k : Nat) (dir : Option (List ProcSample))
    (hdir : dirs[k]? = some dir) :
    DeltasRight (readBefore dirs k) (readings dir)
        (procmemScan (procmemRun qsort (dirs.take k)) dir).changes ↔
      MovedUpOrSame (readBefore dirs k) (readings dir) := by
  refine deltasRight_iff (run_changes hok qsort hdir) (readBefore_ok hok k).1 ?_
    fun y hy => reading_nonneg hy
  intro x hx
  cases k with
  | zero => simp [readBefore] at hx
  | succ k =>
    rw [readBefore] at hx
    cases hprev : dirs[k]? with
    | none => simp [hprev] at hx
    | some prev =>
      rw [hprev] at hx
      exact reading_nonneg hx

/-- One process, read with 100 kB and then with 200 kB. -/
def growing : List (Option (List ProcSample)) := [
  some [{ pid := 1, vmRss := 100, vmData := 100, cmdline := none, comm := none }],
  some [{ pid := 1, vmRss := 200, vmData := 200, cmdline := none, comm := none }]]

theorem growing_ok : ∀ dir ∈ growing, ScanOk dir := by
  intro dir hdir
  simp only [growing, List.mem_cons, List.not_mem_nil, or_false] at hdir
  rcases hdir with rfl | rfl <;> exact ⟨by decide, by decide⟩

theorem run_deltas_right_iff_growing :
    DeltasRight (readBefore growing 1) (readings growing[1])
        (procmemScan (procmemRun .merge (growing.take 1)) growing[1]).changes ↔
      MovedUpOrSame (readBefore growing 1) (readings growing[1]) :=
  run_deltas_right_iff .merge growing growing_ok 1 _ rfl

/-- The process has grown by 100 kB, and 0 is recorded: the search in the table of the first
scan comes back with the entry of the second. -/
theorem growing_deltas_wrong :
    ¬ ∀ dirs : List (Option (List ProcSample)), (∀ dir ∈ dirs, ScanOk dir) →
      ∀ k dir, dirs[k]? = some dir →
        DeltasRight (readBefore dirs k) (readings dir)
          (procmemScan (procmemRun .merge (dirs.take k)) dir).changes := by
  intro h
  have hright := h growing growing_ok 1 _ rfl
  have hmoved := (deltasRight_iff (run_changes growing_ok .merge rfl)
    (readBefore_ok growing_ok 1).1 (by decide) (by decide)).1 hright
  have hcase := hmoved 0 0 ⟨1, 100, 100⟩ ⟨1, 200, 200⟩ rfl rfl rfl
  revert hcase
  decide

end Procmem

end Qmem
