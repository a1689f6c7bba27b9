import Qmem.Services.ProcmemDelta

/-!
# The processes that procmem lists

Each list is taken from the changes of a scan, and those are the first 4096 of the processes that
the scan enters into the table. A process that comes later is in no list, however large it is.

Main results: `procmem_lists_right` and `late_process_missed`.
-/

namespace Qmem

open CLib PoolTable

namespace Procmem

/-- The lists are the twelve largest, those that grew most and those that shrank most, of the
processes that have been recorded. -/
structure ListsRight (recorded : List ProcmemEntry) (priv : ProcmemPriv) : Prop where
  topRss : Ranking (fun e : ProcmemEntry => e.rssKb.toInt) 12 recorded priv.topRss
  growers : Ranking (fun e : ProcmemEntry => e.rssDeltaKb.toInt) 12
    (recorded.filter fun e => 0 < e.rssDeltaKb.toInt) priv.growers
  shrinkers : Ranking (fun e : ProcmemEntry => -e.rssDeltaKb.toInt) 12
    (recorded.filter fun e => e.rssDeltaKb.toInt < 0) priv.shrinkers

/-- The three sorts of the list of changes. -/
theorem procmemCollect_lists (qsort : Qsort) (priv : ProcmemPriv)
    (dir : Option (List ProcSample)) :
    ListsRight (procmemScan priv dir).changes (procmemCollect qsort priv dir) := by
  have hgrowers := qsort.perm compareRssGrower (procmemScan priv dir).changes
  have hshrinkers := (qsort.perm compareRssShrinker _).trans hgrowers
  have hpos (e : ProcmemEntry) : decide (e.rssDeltaKb > 0) = decide (0 < e.rssDeltaKb.toInt) := by
    simp [Int64.lt_iff_toInt_lt]
  have hneg (e : ProcmemEntry) : decide (e.rssDeltaKb < 0) = decide (e.rssDeltaKb.toInt < 0) := by
    simp [Int64.lt_iff_toInt_lt]
  refine ⟨?_, ?_, ?_⟩
  · have hranking := qsort.ranking (fun e : ProcmemEntry => e.rssKb.toInt) 12 (fun _ => true)
      hshrinkers
    rw [List.filter_true, List.filter_true, ← compareDescending_int64] at hranking
    exact hranking
  · have hranking := qsort.ranking (fun e : ProcmemEntry => e.rssDeltaKb.toInt) 12
      (fun e => 0 < e.rssDeltaKb.toInt) (List.Perm.refl (procmemScan priv dir).changes)
    rw [← compareDescending_int64] at hranking
    simp only [← hpos] at hranking ⊢
    exact hranking
  · have hranking := qsort.ranking (fun e : ProcmemEntry => -e.rssDeltaKb.toInt) 12
      (fun e => e.rssDeltaKb.toInt < 0) hgrowers
    rw [← compareAscending_int64] at hranking
    simp only [← hneg] at hranking ⊢
    exact hranking

/-- After any run, a scan of as many processes as the pool has room for enters all of them, and
its lists are taken from the first 4096. -/
theorem procmem_lists_right (qsort : Qsort) (dirs : List (Option (List ProcSample)))
    (dir : Option (List ProcSample)) (hroom : (readings dir).length ≤ 8192) :
    let before := procmemRun qsort dirs
    let priv := procmemCollect qsort before dir
    (∃ es : List ProcEntry, es.map ProcEntry.reading = readings dir ∧
      priv.tables.Settled ProcEntry.pid hashPid es) ∧
    (procmemScan before dir).changes.map (fun e => e.change.1) = (readings dir).take 4096 ∧
    ListsRight (procmemScan before dir).changes priv := by
  intro before priv
  have hentered : entered dir = readings dir := List.take_of_length_le hroom
  have hafter := after_any qsort dirs
  have hscan := hafter.collecting (lastEntered_length_le dirs) dir
  have hnext := hafter.collect (lastEntered_length_le dirs) dir qsort
  rw [hentered] at hscan hnext
  exact ⟨hnext.settled, hscan.recorded, procmemCollect_lists qsort before dir⟩

theorem procmem_lists_right_growing :
    ListsRight (procmemScan (procmemRun .merge (growing.take 1)) growing[1]).changes
      (procmemCollect .merge (procmemRun .merge (growing.take 1)) growing[1]) :=
  (procmem_lists_right .merge (growing.take 1) growing[1] (by decide)).2.2

/-! ## A process that comes late -/

/-- 4096 processes without memory, and one that has some. -/
def lateProcess : Option (List ProcSample) :=
  let process (pid : Nat) (vmRss : Int64) : ProcSample :=
    { pid := Int32.ofNat pid, vmRss, vmData := 0, cmdline := none, comm := none }
  some ((List.range 4096).map (fun i => process (i + 1) 0) ++ [process 4097 1])

theorem readings_lateProcess :
    readings lateProcess = (List.range 4096).map (fun i => ⟨Int32.ofNat (i + 1), 0, 0⟩) ++
      [⟨4097, 1, 0⟩] := by
  have hfirst : ∀ p ∈ (List.range 4096).map (fun i => ({
      pid := Int32.ofNat (i + 1), vmRss := 0, vmData := 0, cmdline := none, comm := none } :
        ProcSample)), decide p.Readable = true := by
    intro p hp
    obtain ⟨i, -, rfl⟩ := List.mem_map.1 hp
    rfl
  rw [readings, lateProcess, Option.getD_some, List.filter_append, List.filter_eq_self.2 hfirst,
    List.map_append, List.map_map]
  rfl

/-- The one that has the most memory is missing from the list of those. -/
theorem late_process_missed :
    ¬ ∀ (qsort : Qsort) (dirs : List (Option (List ProcSample))) (dir : Option (List ProcSample)),
      (readings dir).length ≤ 8192 →
      Ranking (fun y : Reading => y.rssKb.toInt) 12 (readings dir)
        ((procmemCollect qsort (procmemRun qsort dirs) dir).topRss.map fun e => e.change.1) := by
  intro h
  have hlen : (readings lateProcess).length = 4097 := by
    rw [readings_lateProcess, List.length_append, List.length_map, List.length_range]
    rfl
  have hranking := h .merge [] lateProcess (by omega)
  obtain ⟨-, hrecorded, hlists⟩ := procmem_lists_right .merge [] lateProcess (by omega)
  have htop := hranking.length
  cases hcase : (procmemCollect .merge (procmemRun .merge []) lateProcess).topRss with
  | nil =>
    rw [hcase, hlen] at htop
    exact absurd htop (by decide)
  | cons e top =>
    rw [hcase, List.map_cons] at hranking
    have hlate : (⟨4097, 1, 0⟩ : Reading) ∈ readings lateProcess := by
      rw [readings_lateProcess]
      exact List.mem_append_right _ (List.mem_singleton_self _)
    have hle := hranking.le_head hlate
    -- what has been listed has been recorded
    obtain ⟨rest, hperm, -⟩ := hlists.topRss.rest
    have hmem : e ∈ (procmemScan (procmemRun .merge []) lateProcess).changes := by
      rw [← hperm.mem_iff, hcase]
      exact List.mem_cons_self
    have hfirst := List.mem_map_of_mem (f := fun e : ProcmemEntry => e.change.1) hmem
    rw [hrecorded, readings_lateProcess, List.take_append_of_le_length (by simp),
      List.take_of_length_le (by simp)] at hfirst
    obtain ⟨i, -, hi⟩ := List.mem_map.1 hfirst
    rw [← hi] at hle
    have hless : (0 : Int64).toInt < (1 : Int64).toInt := by decide
    exact hless.not_ge hle

end Procmem

end Qmem
