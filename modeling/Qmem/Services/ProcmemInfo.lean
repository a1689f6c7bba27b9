import Qmem.Services.ProcmemDelta

/-!
# What `procmem_get_pid_info` reports

The growth of a process is computed again when it is asked for, after the whole scan, when more of
the older table has been overwritten than when the scan came to the process. An older entry that
counted then and has been overwritten since makes the difference.

Main results: `pid_info_agrees_iff`, and `current_table_exact` for the table that is asked.
-/

namespace Qmem

open CLib PoolTable

namespace Procmem

theorem reading_getElem? {es : List ProcEntry} {i : Nat} {x : Reading}
    (h : (es.map ProcEntry.reading)[i]? = some x) : ∃ e, es[i]? = some e ∧ e.reading = x :=
  Option.map_eq_some_iff.1 (List.getElem?_map .. ▸ h)

/-- The service after a scan, with what is left of the scan before: `xs` and then `ys` were
entered. -/
structure Collected (xs ys : List Reading) (priv : ProcmemPriv) : Prop where
  round : ∃ es fs : List ProcEntry, es.map ProcEntry.reading = xs ∧
    fs.map ProcEntry.reading = ys ∧ priv.tables.Round ProcEntry.pid hashPid es fs
  hasPrevious : priv.hasPrevious = true

theorem After.collected {xs : List Reading} {priv : ProcmemPriv} (h : After xs priv)
    (hxlen : xs.length ≤ maxProcs * 2) (dir : Option (List ProcSample)) (qsort : Qsort) :
    Collected xs (entered dir) (procmemCollect qsort priv dir) :=
  ⟨(h.collecting hxlen dir).round, rfl⟩

section

variable {xs ys : List Reading} {priv : ProcmemPriv} {i j : Nat} {x y : Reading}

/-- The growth that is reported of an entry whose older value has not been overwritten. -/
theorem deltas_kept {es fs : List ProcEntry} {e old : ProcEntry}
    (h : priv.tables.Round ProcEntry.pid hashPid es fs) (hprevious : priv.hasPrevious = true)
    (hes : (es.map ProcEntry.pid).Nodup) (hlen : es.length ≤ maxProcs * 2)
    (hold : es[i]? = some old) (hpid : old.pid = e.pid) (hi : fs.length ≤ i) :
    deltas priv e = (e.rssKb - old.rssKb, e.dataKb - old.dataKb) := by
  have hfind : findInHash priv priv.tables.previous e.pid = some old := by
    rw [← hpid]
    exact h.refilling.find_prev_old hes hold hi hlen
  rw [deltas, if_pos hprevious, hfind]

/-- Of any other there is none: a search comes back with the entry itself at most. -/
theorem deltas_gone {es fs : List ProcEntry} {e : ProcEntry}
    (h : priv.tables.Round ProcEntry.pid hashPid es fs) (hprevious : priv.hasPrevious = true)
    (hfs : (fs.map ProcEntry.pid).Nodup) (hlen : es.length ≤ maxProcs * 2)
    (hlen' : fs.length ≤ maxProcs * 2) (he : e ∈ fs)
    (hgone : ∀ old ∈ es.drop fs.length, old.pid ≠ e.pid) : deltas priv e = (0, 0) := by
  rw [deltas, if_pos hprevious]
  cases hfind : findInHash priv priv.tables.previous e.pid with
  | none => rfl
  | some found =>
    obtain ⟨hmem, hpid⟩ := h.refilling.find_prev_gone hgone hlen hlen' hfind
    have heq : found = e := List.inj_on_of_nodup_map hfs hmem he hpid
    rw [heq]
    simp

theorem find_current {es fs : List ProcEntry} {e : ProcEntry}
    (h : priv.tables.Round ProcEntry.pid hashPid es fs) (hfs : (fs.map ProcEntry.pid).Nodup)
    (hlen : fs.length ≤ maxProcs * 2) (he : e ∈ fs) :
    findInHash priv priv.tables.current e.pid = some e := by
  obtain ⟨j, hj⟩ := List.mem_iff_getElem?.1 he
  exact h.settled.start.find_prev_old hfs hj (Nat.zero_le j) hlen

/-- The table of the scan leads to every process that it entered. -/
theorem Collected.find_entered (h : Collected xs ys priv) (hys : (ys.map Reading.pid).Nodup)
    (hylen : ys.length ≤ maxProcs * 2) (hy : y ∈ ys) :
    ∃ e, findInHash priv priv.tables.current y.pid = some e ∧ e.reading = y := by
  obtain ⟨es, fs, rfl, rfl, hround⟩ := h.round
  rw [← pid_map] at hys
  rw [List.length_map] at hylen
  obtain ⟨e, he, rfl⟩ := List.mem_map.1 hy
  exact ⟨e, find_current hround hys hylen he, rfl⟩

/-- And to no other, whatever is left in the pool. -/
theorem Collected.find_other (h : Collected xs ys priv) (hylen : ys.length ≤ maxProcs * 2)
    {pid : Int32} (hpid : pid ∉ ys.map Reading.pid) :
    findInHash priv priv.tables.current pid = none := by
  obtain ⟨es, fs, rfl, rfl, hround⟩ := h.round
  rw [← pid_map] at hpid
  rw [List.length_map] at hylen
  have hnone := (hround.settled.find_isSome_iff pid hylen).not.2 fun ⟨e, he, hkey⟩ =>
    hpid (List.mem_map.2 ⟨e, he, hkey⟩)
  rw [findInHash, Option.map_eq_none_iff]
  exact Option.not_isSome_iff_eq_none.1 hnone

/-- **What is reported of a process**: its values, and its growth if its older entry is behind
all of this scan's. -/
theorem Collected.info (h : Collected xs ys priv) (hxs : (xs.map Reading.pid).Nodup)
    (hys : (ys.map Reading.pid).Nodup) (hxlen : xs.length ≤ maxProcs * 2)
    (hylen : ys.length ≤ maxProcs * 2) (hy : y ∈ ys) :
    ∃ info, procmemGetPidInfo priv y.pid = some info ∧ info.change.1 = y ∧
      (∀ i x, xs[i]? = some x → x.pid = y.pid → ys.length ≤ i →
        info.change.2 = (y.rssKb - x.rssKb, y.dataKb - x.dataKb)) ∧
      ((∀ i x, xs[i]? = some x → x.pid = y.pid → i < ys.length) → info.change.2 = (0, 0)) := by
  obtain ⟨es, fs, rfl, rfl, hround⟩ := h.round
  rw [← pid_map] at hxs hys
  rw [List.length_map] at hxlen hylen
  obtain ⟨e, he, rfl⟩ := List.mem_map.1 hy
  have hfind := find_current hround hys hylen he
  have hinfo : procmemGetPidInfo priv e.reading.pid = some (result priv e) := by
    rw [procmemGetPidInfo]
    exact congrArg _ hfind
  refine ⟨result priv e, hinfo, rfl, fun i x hx hpid hi => ?_, fun hgone => ?_⟩
  · obtain ⟨old, hold, rfl⟩ := reading_getElem? hx
    rw [List.length_map] at hi
    exact deltas_kept hround h.hasPrevious hxs hxlen hold hpid hi
  · refine deltas_gone hround h.hasPrevious hys hxlen hylen he fun old hold hpid => ?_
    obtain ⟨k, hk⟩ := List.mem_iff_getElem?.1 hold
    rw [List.getElem?_drop] at hk
    have hlt := hgone (fs.length + k) old.reading (by rw [List.getElem?_map, hk]; rfl) hpid
    rw [List.length_map] at hlt
    omega

theorem sub_eq_zero_iff {a b : Int64} : a - b = 0 ↔ b = a := by
  rw [Int64.sub_eq_iff_eq_add, Int64.zero_add]
  exact eq_comm

/-- When what is reported of a process is what has been recorded. -/
theorem Collected.agrees_iff (h : Collected xs ys priv) (hxs : (xs.map Reading.pid).Nodup)
    (hys : (ys.map Reading.pid).Nodup) (hxlen : xs.length ≤ maxProcs * 2)
    (hylen : ys.length ≤ maxProcs * 2) (hy : ys[j]? = some y) :
    (∃ info, procmemGetPidInfo priv y.pid = some info ∧ info.change = (y, deltaAt xs j y)) ↔
      ∀ i x, xs[i]? = some x → x.pid = y.pid → j < i → i < ys.length →
        x.rssKb = y.rssKb ∧ x.dataKb = y.dataKb := by
  obtain ⟨info, hinfo, hreading, hkept, hgone⟩ :=
    h.info hxs hys hxlen hylen (List.mem_of_getElem? hy)
  have hagrees : (∃ info, procmemGetPidInfo priv y.pid = some info ∧
      info.change = (y, deltaAt xs j y)) ↔ info.change.2 = deltaAt xs j y := by
    rw [hinfo]
    constructor
    · rintro ⟨info', heq, hchange⟩
      rw [Option.some.inj heq, hchange]
    · intro hdelta
      exact ⟨info, rfl, Prod.ext hreading hdelta⟩
  have hj := (List.getElem?_eq_some_iff.1 hy).1
  rw [hagrees]
  by_cases hold : ∃ (i : Nat) (x : Reading), xs[i]? = some x ∧ x.pid = y.pid
  · obtain ⟨i, x, hx, hpid⟩ := hold
    have honly {i' : Nat} {x' : Reading} (hx' : xs[i']? = some x') (hpid' : x'.pid = y.pid) :
        i' = i ∧ x' = x := by
      have hi : i' = i := index_of_key hxs hx hx' (hpid'.trans hpid.symm)
      rw [hi, hx] at hx'
      exact ⟨hi, (Option.some.inj hx').symm⟩
    have hright : (∀ i x, xs[i]? = some x → x.pid = y.pid → j < i → i < ys.length →
        x.rssKb = y.rssKb ∧ x.dataKb = y.dataKb) ↔
          (j < i → i < ys.length → x.rssKb = y.rssKb ∧ x.dataKb = y.dataKb) := by
      constructor
      · intro hall
        exact hall i x hx hpid
      · intro hone i' x' hx' hpid'
        obtain ⟨rfl, rfl⟩ := honly hx' hpid'
        exact hone
    rw [hright, deltaAt_of_find hxs hx hpid]
    by_cases hbehind : ys.length ≤ i
    · rw [hkept i x hx hpid hbehind, if_pos (by omega)]
      exact iff_of_true rfl fun _ hlt => absurd hlt (by omega)
    · have hzero := hgone fun i' x' hx' hpid' => by
        obtain ⟨rfl, -⟩ := honly hx' hpid'
        omega
      rw [hzero]
      by_cases hji : j < i
      · rw [if_pos hji, Prod.mk.injEq, eq_comm, sub_eq_zero_iff, @eq_comm _ 0, sub_eq_zero_iff]
        exact ⟨fun hsame _ _ => hsame, fun hsame => hsame hji (by omega)⟩
      · rw [if_neg hji]
        exact iff_of_true rfl fun hlt => absurd hlt hji
  · have hnone : ∀ x ∈ xs, x.pid ≠ y.pid := by
      intro x hx hpid
      obtain ⟨i, hi⟩ := List.mem_iff_getElem?.1 hx
      exact hold ⟨i, x, hi, hpid⟩
    have hzero := hgone fun i x hx hpid => absurd ⟨i, x, hx, hpid⟩ hold
    rw [hzero, deltaAt_of_absent hnone]
    exact iff_of_true rfl fun i x hx hpid => absurd ⟨i, x, hx, hpid⟩ hold

end

/-! ## Runs -/

/-- Every scan is of distinct processes, and the last one of as many as can be recorded. -/
structure InfoRun (dirs : List (Option (List ProcSample))) (dir : Option (List ProcSample)) :
    Prop where
  distinct : ∀ dir ∈ dirs, ((readings dir).map Reading.pid).Nodup
  last : ScanOk dir

theorem InfoRun.distinct_last {dirs : List (Option (List ProcSample))}
    {dir : Option (List ProcSample)} (h : InfoRun dirs dir) :
    ((lastEntered dirs).map Reading.pid).Nodup := by
  rw [lastEntered]
  cases hlast : dirs.getLast? with
  | none => exact List.nodup_nil
  | some before =>
    have hnodup := h.distinct before (List.mem_of_getLast? hlast)
    exact hnodup.sublist ((List.take_sublist _ _).map _)

/-- What is recorded of the last scan. -/
theorem InfoRun.changes {dirs : List (Option (List ProcSample))} {dir : Option (List ProcSample)}
    (h : InfoRun dirs dir) (qsort : Qsort) :
    (procmemScan (procmemRun qsort dirs) dir).changes.map ProcmemEntry.change =
      recordedChanges (lastEntered dirs) (readings dir) := by
  have hscan := (after_any qsort dirs).collecting (lastEntered_length_le dirs) dir
  rw [h.last.entered_eq] at hscan
  exact (hscan.scanning h.distinct_last h.last.distinct h.last.room).changes

/-- An entry that has been recorded, and the reading it is of. -/
theorem InfoRun.recorded {dirs : List (Option (List ProcSample))}
    {dir : Option (List ProcSample)} (h : InfoRun dirs dir) (qsort : Qsort) {e : ProcmemEntry}
    (he : e ∈ (procmemScan (procmemRun qsort dirs) dir).changes) :
    ∃ j y, (readings dir)[j]? = some y ∧ e.change = (y, deltaAt (lastEntered dirs) j y) := by
  have hmem := List.mem_map_of_mem (f := ProcmemEntry.change) he
  rw [h.changes qsort, recordedChanges] at hmem
  obtain ⟨⟨y, j⟩, hy, heq⟩ := List.mem_map.1 hmem
  exact ⟨j, y, List.mem_zipIdx_iff_getElem?.1 hy, heq.symm⟩

/-- **After every run**, `procmem_get_pid_info` reports of a process what the last scan recorded
of it exactly when its entry of the scan before has not been overwritten in between, or the
process has not changed. -/
theorem pid_info_agrees_iff (qsort : Qsort) (dirs : List (Option (List ProcSample)))
    (dir : Option (List ProcSample)) (h : InfoRun dirs dir) (e : ProcmemEntry)
    (he : e ∈ (procmemScan (procmemRun qsort dirs) dir).changes) :
    (∃ info, procmemGetPidInfo (procmemCollect qsort (procmemRun qsort dirs) dir) e.pid =
        some info ∧ info.change = e.change) ↔
      ∀ i j x y, (lastEntered dirs)[i]? = some x → (readings dir)[j]? = some y →
        x.pid = e.pid → y.pid = e.pid → j < i → i < (readings dir).length →
        x.rssKb = y.rssKb ∧ x.dataKb = y.dataKb := by
  obtain ⟨j, y, hy, hchange⟩ := h.recorded qsort he
  have hcollected := (after_any qsort dirs).collected (lastEntered_length_le dirs) dir qsort
  rw [h.last.entered_eq] at hcollected
  have hroom := h.last.room
  have hagrees := hcollected.agrees_iff h.distinct_last h.last.distinct
    (lastEntered_length_le dirs) (by omega) hy
  have hpid : y.pid = e.pid := congrArg (fun c => c.1.pid) hchange.symm
  rw [← hchange, hpid] at hagrees
  rw [hagrees]
  constructor
  · intro hall i j' x y' hx hy' hxpid hypid
    obtain rfl : j' = j := index_of_key h.last.distinct hy hy' (hypid.trans hpid.symm)
    rw [hy, Option.some.injEq] at hy'
    rw [← hy']
    exact hall i x hx hxpid
  · intro hall i x hx hxpid
    exact hall i j x y hx hy hxpid hpid

/-- Two processes that change places; the one that comes first then has grown by 100 kB. -/
def swapped : List (Option (List ProcSample)) :=
  let process (pid : Int32) (kb : Int64) : ProcSample :=
    { pid, vmRss := kb, vmData := kb, cmdline := none, comm := none }
  [some [process 1 100, process 2 100], some [process 2 200, process 1 100]]

theorem swapped_ok : InfoRun [swapped[0]] swapped[1] := by
  refine ⟨fun dir hdir => ?_, by decide, by decide⟩
  rw [List.mem_singleton.1 hdir]
  decide

theorem swapped_recorded :
    ∃ e ∈ (procmemScan (procmemRun .merge [swapped[0]]) swapped[1]).changes,
      e.change = (⟨2, 200, 200⟩, (100, 100)) := by
  have hchanges := swapped_ok.changes .merge
  have hrecorded : recordedChanges (lastEntered [swapped[0]]) (readings swapped[1]) =
      [(⟨2, 200, 200⟩, (100, 100)), (⟨1, 100, 100⟩, (0, 0))] := by decide
  rw [hrecorded] at hchanges
  refine List.mem_map.1 ?_
  rw [hchanges]
  exact List.mem_cons_self

theorem pid_info_agrees_iff_swapped :
    ∃ e ∈ (procmemScan (procmemRun .merge [swapped[0]]) swapped[1]).changes,
      ((∃ info, procmemGetPidInfo
          (procmemCollect .merge (procmemRun .merge [swapped[0]]) swapped[1]) e.pid = some info ∧
            info.change = e.change) ↔
        ∀ i j x y, (lastEntered [swapped[0]])[i]? = some x → (readings swapped[1])[j]? = some y →
          x.pid = e.pid → y.pid = e.pid → j < i → i < (readings swapped[1]).length →
          x.rssKb = y.rssKb ∧ x.dataKb = y.dataKb) := by
  obtain ⟨e, he, -⟩ := swapped_recorded
  exact ⟨e, he, pid_info_agrees_iff .merge [swapped[0]] swapped[1] swapped_ok e he⟩

/-- The growth has been recorded, and is not reported. -/
theorem swapped_growth_lost :
    ¬ ∀ (qsort : Qsort) (dirs : List (Option (List ProcSample))) (dir : Option (List ProcSample)),
      InfoRun dirs dir → ∀ e ∈ (procmemScan (procmemRun qsort dirs) dir).changes,
        ∃ info, procmemGetPidInfo (procmemCollect qsort (procmemRun qsort dirs) dir) e.pid =
          some info ∧ info.change = e.change := by
  intro hall
  obtain ⟨e, he, hchange⟩ := swapped_recorded
  have hagrees := hall .merge _ _ swapped_ok e he
  have hcollected := (after_any .merge [swapped[0]]).collected
    (lastEntered_length_le [swapped[0]]) swapped[1] .merge
  rw [swapped_ok.last.entered_eq] at hcollected
  have hpid : e.pid = 2 := congrArg (fun c => c.1.pid) hchange
  have hdelta : deltaAt (lastEntered [swapped[0]]) 0 ⟨2, 200, 200⟩ = (100, 100) := by decide
  rw [hpid, hchange, ← hdelta] at hagrees
  have hsame := (hcollected.agrees_iff (j := 0) (y := ⟨2, 200, 200⟩) swapped_ok.distinct_last
    swapped_ok.last.distinct (lastEntered_length_le _) (by decide) rfl).1 hagrees
  have hcase := hsame 1 ⟨2, 100, 100⟩ rfl rfl
  revert hcase
  decide

/-! ## The table of the last scan -/

/-- **The table of a scan of distinct processes**: it leads to the readings of those that were
entered, the first 8192 that could be read, and to nothing for any other pid, whatever the scans
before have left in the pool. -/
theorem current_table_exact (qsort : Qsort) (dirs : List (Option (List ProcSample)))
    (dir : Option (List ProcSample)) (hdistinct : ((readings dir).map Reading.pid).Nodup) :
    let priv := procmemCollect qsort (procmemRun qsort dirs) dir
    (∀ r ∈ (readings dir).take 8192,
        ∃ e, findInHash priv priv.tables.current r.pid = some e ∧ e.reading = r) ∧
      ∀ pid ∉ ((readings dir).take 8192).map Reading.pid,
        findInHash priv priv.tables.current pid = none := by
  intro priv
  have hcollected : Collected (lastEntered dirs) (entered dir) priv :=
    (after_any qsort dirs).collected (lastEntered_length_le dirs) dir qsort
  have hlen := entered_length_le dir
  have hnodup : ((entered dir).map Reading.pid).Nodup :=
    hdistinct.sublist ((List.take_sublist _ _).map _)
  exact ⟨fun r hr => hcollected.find_entered hnodup hlen hr,
    fun pid hpid => hcollected.find_other hlen hpid⟩

theorem current_table_exact_swapped :
    let priv := procmemCollect .merge (procmemRun .merge [swapped[0]]) swapped[1]
    (∀ r ∈ (readings swapped[1]).take 8192,
        ∃ e, findInHash priv priv.tables.current r.pid = some e ∧ e.reading = r) ∧
      ∀ pid ∉ ((readings swapped[1]).take 8192).map Reading.pid,
        findInHash priv priv.tables.current pid = none :=
  current_table_exact .merge [swapped[0]] swapped[1] (by decide)

end Procmem

end Qmem
