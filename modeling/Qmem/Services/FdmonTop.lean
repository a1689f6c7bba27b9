import Qmem.Services.FdmonRuns

/-!
# What fdmon reports of a whole table

A scan stops at its 100th process, wherever that stands in the directory, and the sums are kept in
an `int`. Below these limits the lists are the right ones if the differences of the changes order
the processes.

Main result: `fdmon_top_right_iff`.
-/

namespace Qmem

open CLib FirstSeen

namespace Fdmon

/-- What is reported of a process in a list. -/
structure Standing where
  pid : Int32
  fdCount : Int32
  fdChange : Int32
deriving DecidableEq

def FdmonEntry.standing (e : FdmonEntry) : Standing where
  pid := e.pid
  fdCount := e.fdCount
  fdChange := e.fdChange

/-- Where a process stands that had this first count, if it had any. -/
def standing (initial : List FdData) (r : Reading) : Standing where
  pid := r.pid
  fdCount := r.fdCount
  fdChange := r.fdCount -
    ((initial.find? fun init => init.pid = r.pid).map (·.fdCount)).getD r.fdCount

/-- The processes of a table that have more descriptors than at first. -/
def grown (table : List Standing) : List Standing := table.filter fun t => t.fdChange > 0

/-- The lists and the sums are those of the whole table. -/
structure TopRight (table : List Standing) (priv : FdmonPriv) : Prop where
  consumers : Ranking (fun t : Standing => t.fdCount.toInt) topCount table
    (priv.topConsumers.map FdmonEntry.standing)
  leakers : Ranking (fun t : Standing => t.fdChange.toInt) topCount (grown table)
    (priv.leakers.map FdmonEntry.standing)
  total : priv.summary.totalFds.toInt = (table.map fun t => t.fdCount.toInt).sum
  procs : priv.summary.procCount.toInt = table.length

/-! ## The scan -/

/-- The invariant of a scan that began with these first counts. -/
structure Filling (initial : List FdData) (done : List Reading) (s : Collecting) : Prop where
  entries : s.allProcs.map FdmonEntry.standing = done.map (standing initial)
  total : s.priv.summary.totalFds = .ofInt (done.map fun r => r.fdCount.toInt).sum
  procs : s.priv.summary.procCount = .ofNat done.length
  others : ∀ pid ∉ done.map Reading.pid,
    s.priv.initial.find? (fun init => init.pid = pid) =
      initial.find? fun init => init.pid = pid

/-- The table of first counts, whoever they are of. -/
def someTable (initial : List FdData) : List Reading :=
  initial.map fun init => { pid := init.pid, start := 0, fdCount := init.fdCount }

theorem someTable_data (initial : List FdData) :
    initial = (someTable initial).map Reading.data := by
  rw [someTable, List.map_map]
  exact (List.map_id _).symm

theorem someTable_find (initial : List FdData) (pid : Int32) :
    ((someTable initial).find? fun t => t.pid = pid).map Reading.fdCount =
      (initial.find? fun init => init.pid = pid).map (·.fdCount) := by
  rw [someTable, List.find?_map, Option.map_map]
  rfl

theorem findOrCreate_count (table : List Reading) (r : Reading) :
    ((findOrCreate Reading.pid (maxProcs * 2) table r).2.map Reading.fdCount).getD r.fdCount =
      ((table.find? fun t => t.pid = r.pid).map Reading.fdCount).getD r.fdCount := by
  rw [findOrCreate]
  cases table.find? fun t => t.pid = r.pid with
  | some t => rfl
  | none =>
    simp only
    split
    · rfl
    · rfl

theorem findOrCreate_others (table : List Reading) (r : Reading) {pid : Int32} (h : r.pid ≠ pid) :
    (findOrCreate Reading.pid (maxProcs * 2) table r).1.find? (fun t => t.pid = pid) =
      table.find? fun t => t.pid = pid := by
  rw [findOrCreate]
  cases table.find? fun t => t.pid = r.pid with
  | some t => rfl
  | none =>
    simp only
    split
    · exact find?_append_other table h
    · rfl

theorem ofInt_sum_append (counts : List Int) (n : Int32) :
    Int32.ofInt (counts ++ [n.toInt]).sum = .ofInt counts.sum + n := by
  rw [List.sum_append, List.sum_singleton, Int32.ofInt_add, Int32.ofInt_toInt]

theorem Filling.step {initial : List FdData} {done : List Reading} {s : Collecting}
    (h : Filling initial done s) (stack : Nat → Bytes) {p : FdSample} {r : Reading}
    (hr : p.reading = some r) (hnew : r.pid ∉ done.map Reading.pid) :
    Filling initial (done ++ [r]) (scanProc stack s p) := by
  obtain ⟨e, hreport, hinitial, hsummary, hprocs⟩ :=
    scanProc_reading stack hr (someTable_data s.priv.initial)
  have hcount : e.fdCount = r.fdCount := congrArg (·.2.1) hreport
  have hstanding : e.standing = standing initial r := by
    have hpid : e.pid = r.pid := congrArg (·.1) hreport
    have hchange := congrArg (·.2.2.2) hreport
    simp only [FdmonEntry.report] at hchange
    rw [findOrCreate_count, someTable_find, h.others r.pid hnew] at hchange
    rw [FdmonEntry.standing, standing, hpid, hcount, hchange]
  refine ⟨?_, ?_, ?_, fun pid hpid => ?_⟩
  · rw [hprocs, List.map_append, List.map_append, h.entries, List.map_singleton, hstanding]
    rfl
  · rw [hsummary, FdmonSummary.count, List.map_append, List.map_singleton, ofInt_sum_append,
      ← h.total, hcount]
  · rw [hsummary, FdmonSummary.count, List.length_append, Int32.ofNat_add, ← h.procs]
    rfl
  · rw [List.map_append, List.mem_append, not_or] at hpid
    have hother : r.pid ≠ pid := by simpa [eq_comm] using hpid.2
    rw [hinitial, find?_data, findOrCreate_others _ r hother, ← find?_data, ← someTable_data]
    exact h.others pid hpid.1

/-- The whole loop: it takes no more processes than the local array has room for. -/
theorem Filling.loop {initial : List FdData} {done : List Reading} {s : Collecting}
    (h : Filling initial done s) (stack : Nat → Bytes) (ps : List FdSample)
    (hroom : done.length ≤ maxProcs)
    (hdistinct : ((done ++ ps.filterMap FdSample.reading).map Reading.pid).Nodup) :
    Filling initial ((done ++ ps.filterMap FdSample.reading).take maxProcs)
      (scanLoop stack ps s) := by
  induction ps generalizing done s with
  | nil =>
    rw [List.filterMap_nil, List.append_nil, List.take_of_length_le hroom]
    exact h
  | cons p ps ih =>
    have hcount : s.allProcs.length = done.length := by
      have hlen := congrArg List.length h.entries
      rwa [List.length_map, List.length_map] at hlen
    rw [scanLoop, hcount]
    split
    · case isTrue hless =>
      cases hr : p.reading with
      | none =>
        rw [List.filterMap_cons_none hr] at hdistinct ⊢
        rw [scanProc_skip stack s hr]
        exact ih h hroom hdistinct
      | some r =>
        rw [List.filterMap_cons_some hr] at hdistinct ⊢
        have hnew : r.pid ∉ done.map Reading.pid := by
          intro hmem
          rw [List.map_append, List.nodup_append] at hdistinct
          exact hdistinct.2.2 r.pid hmem r.pid List.mem_cons_self rfl
        rw [List.append_cons] at hdistinct ⊢
        refine ih (h.step stack hr hnew) ?_ hdistinct
        rw [List.length_append, List.length_singleton]
        exact hless
    · case isFalse hfull =>
      have hlen : done.length = maxProcs := by omega
      rw [← hlen, List.take_left]
      exact h

/-- What a scan finds, from any state. -/
theorem fdmonScan_filling (priv : FdmonPriv) (scan : FdScan) :
    Filling priv.initial (scan.readings.take maxProcs) (fdmonScan priv scan) := by
  have hstart : Filling priv.initial [] { priv := resetCurrent priv, allProcs := [] } :=
    ⟨rfl, rfl, rfl, fun _ _ => rfl⟩
  exact hstart.loop scan.stack scan.procs (Nat.zero_le _) scan.readings_nodup

/-! ## The sums -/

theorem toInt_ofInt_eq_iff {n : Int} (hn : 0 ≤ n) : (Int32.ofInt n).toInt = n ↔ n < 2 ^ 31 := by
  constructor
  · intro h
    rw [← h]
    exact Int32.toInt_lt _
  · intro h
    exact Int32.toInt_ofInt_of_le (by omega) h

theorem sum_nonneg (scan : FdScan) : 0 ≤ (scan.readings.map fun r => r.fdCount.toInt).sum := by
  refine List.sum_nonneg fun n hn => ?_
  obtain ⟨r, hr, rfl⟩ := List.mem_map.1 hn
  obtain ⟨p, -, hp⟩ := List.mem_filterMap.1 hr
  exact FdSample.reading_nonneg hp

/-! ## The lists -/

/-- `cmp_fd_change_desc`, on what it looks at. -/
def cmpChange (t t' : Standing) : Int := (t'.fdChange - t.fdChange).toInt

theorem cmpChange_standing (e e' : FdmonEntry) :
    cmpChange e.standing e'.standing = cmpFdChangeDesc e e' := rfl

/-- Numbers that are not negative can be subtracted. -/
theorem sub_le_zero {a b : Int32} (ha : 0 ≤ a.toInt) (hb : 0 ≤ b.toInt) :
    (b - a).toInt ≤ 0 ↔ b.toInt ≤ a.toInt := by
  have hta := a.toInt_lt
  have htb := b.toInt_lt
  rw [Int32.toInt_sub, Int.bmod_eq_of_le (by omega) (by omega)]
  omega

theorem ordersOn_count {es : List FdmonEntry} (h : ∀ e ∈ es, 0 ≤ e.fdCount.toInt) :
    OrdersOn cmpFdCountDesc es :=
  .of_key (fun e => e.fdCount.toInt) fun a ha b hb => sub_le_zero (h a ha) (h b hb)

section

variable {table : List Standing} {all : List FdmonEntry}
  (hall : (all.map FdmonEntry.standing).Perm table)

include hall

theorem mem_table {e : FdmonEntry} (he : e ∈ all) : e.standing ∈ table :=
  hall.mem_iff.1 (List.mem_map_of_mem he)

theorem grown_perm :
    ((all.filter fun e => e.fdChange > 0).map FdmonEntry.standing).Perm (grown table) := by
  have hfilter := hall.filter fun t => t.fdChange > 0
  rwa [List.filter_map] at hfilter

theorem ordersOn_change : OrdersOn cmpFdChangeDesc all ↔ OrdersOn cmpChange table := by
  have hsome {t : Standing} (ht : t ∈ table) : ∃ e ∈ all, e.standing = t :=
    List.mem_map.1 (hall.mem_iff.2 ht)
  constructor
  · intro h
    refine ⟨fun t ht t' ht' => ?_, fun t ht t' ht' t'' ht'' => ?_⟩
    · obtain ⟨e, he, rfl⟩ := hsome ht
      obtain ⟨e', he', rfl⟩ := hsome ht'
      simpa only [cmpChange_standing] using h.total e he e' he'
    · obtain ⟨e, he, rfl⟩ := hsome ht
      obtain ⟨e', he', rfl⟩ := hsome ht'
      obtain ⟨e'', he'', rfl⟩ := hsome ht''
      simpa only [cmpChange_standing] using h.trans e he e' he' e'' he''
  · intro h
    refine ⟨fun e he e' he' => ?_, fun e he e' he' e'' he'' => ?_⟩
    · simpa only [cmpChange_standing] using
        h.total _ (mem_table hall he) _ (mem_table hall he')
    · simpa only [cmpChange_standing] using
        h.trans _ (mem_table hall he) _ (mem_table hall he') _ (mem_table hall he'')

/-- Those that have grown, in the order of the second sort. -/
theorem leakers_sorted (qsort : FullQsort)
    (h : OrdersOn cmpChange table ∨
      ∀ t ∈ grown table, ∀ t' ∈ grown table, t.fdChange = t'.fdChange) :
    (((qsort.sort cmpFdChangeDesc all).filter fun e => e.fdChange > 0).map
      FdmonEntry.standing).Pairwise fun t t' => t'.fdChange.toInt ≤ t.fdChange.toInt := by
  have hperm : ((qsort.sort cmpFdChangeDesc all).map FdmonEntry.standing).Perm table :=
    ((qsort.perm _ _).map _).trans hall
  rw [List.pairwise_map]
  rcases h with h | h
  · have hsorted := (qsort.sortedOn cmpFdChangeDesc all ((ordersOn_change hall).2 h)).sublist
      (List.filter_sublist (p := fun e => decide (e.fdChange > 0)))
    refine hsorted.imp_of_mem fun {e e'} he he' hle => ?_
    have hpos := of_decide_eq_true (List.mem_filter.1 he).2
    have hpos' := of_decide_eq_true (List.mem_filter.1 he').2
    rw [gt_iff_lt, Int32.lt_iff_toInt_lt] at hpos hpos'
    exact (sub_le_zero hpos.le hpos'.le).1 hle
  · refine List.pairwise_of_forall_mem_list fun e he e' he' => ?_
    have hgrown {e : FdmonEntry}
        (he : e ∈ (qsort.sort cmpFdChangeDesc all).filter fun e => e.fdChange > 0) :
        e.standing ∈ grown table :=
      (grown_perm hperm).mem_iff.1 (List.mem_map_of_mem he)
    rw [h _ (hgrown he) _ (hgrown he')]

/-- The entry that is brought to the front leads the leakers. -/
theorem leakers_wrong {t t' : Standing} (ht : t ∈ grown table) (ht' : t' ∈ grown table)
    (hless : t.fdChange.toInt < t'.fdChange.toInt) (h : ¬ OrdersOn cmpChange table) :
    ∃ i, ¬ Ranking (fun t : Standing => t.fdChange.toInt) topCount (grown table)
      (((((FullQsort.unruly i).sort cmpFdChangeDesc all).filter fun e =>
        e.fdChange > 0).take topCount).map FdmonEntry.standing) := by
  obtain ⟨ht, hpos⟩ := List.mem_filter.1 ht
  obtain ⟨e, he, rfl⟩ := List.mem_map.1 (hall.mem_iff.2 ht)
  obtain ⟨i, hi⟩ := List.mem_iff_getElem?.1 he
  obtain ⟨rest, hrest⟩ := FullQsort.unruly_head
    (fun hon => h ((ordersOn_change hall).1 hon)) hi
  refine ⟨i, fun hranking => ?_⟩
  have hfront : (e :: rest).filter (fun e => decide (e.fdChange > 0)) =
      e :: rest.filter fun e => decide (e.fdChange > 0) := List.filter_cons_of_pos hpos
  rw [hrest, hfront] at hranking
  exact absurd (hranking.le_head ht') (by simpa using hless)


end

/-! ## The collection -/

/-- The processes of a scan, each with how far it has come since its pid was first recorded. -/
def FdScan.table (scan : FdScan) (initial : List FdData) : List Standing :=
  scan.readings.map (standing initial)

section

variable (priv : FdmonPriv) (scan : FdScan)

theorem table_total :
    ((scan.table priv.initial).map fun t => t.fdCount.toInt) =
      scan.readings.map fun r => r.fdCount.toInt := by
  rw [FdScan.table, List.map_map]
  rfl

/-- A scan in which the processes fit: everything of the table, and nothing else. -/
theorem scan_table (hfits : (scan.table priv.initial).length ≤ maxProcs) :
    (fdmonScan priv scan).allProcs.map FdmonEntry.standing = scan.table priv.initial ∧
      (fdmonScan priv scan).priv.summary.totalFds =
        .ofInt ((scan.table priv.initial).map fun t => t.fdCount.toInt).sum ∧
      (fdmonScan priv scan).priv.summary.procCount =
        .ofNat (scan.table priv.initial).length := by
  have hscan := fdmonScan_filling priv scan
  have hlen : (scan.table priv.initial).length = scan.readings.length := List.length_map _
  rw [List.take_of_length_le (by rwa [← hlen])] at hscan
  rw [table_total, hlen]
  exact ⟨hscan.entries, hscan.total, hscan.procs⟩

theorem procs_le (qsort : Qsort) :
    (fdmonCollect qsort priv (some scan)).1.summary.procCount.toInt ≤ maxProcs := by
  have hprocs := (fdmonScan_filling priv scan).procs
  have hlen : (scan.readings.take maxProcs).length ≤ maxProcs := by
    rw [List.length_take]
    exact Nat.min_le_left _ _
  show (fdmonScan priv scan).priv.summary.procCount.toInt ≤ maxProcs
  rw [hprocs, Int32.toInt_ofNat_of_lt (Nat.lt_of_le_of_lt hlen (by decide))]
  exact_mod_cast hlen

theorem count_nonneg : ∀ e ∈ (fdmonScan priv scan).allProcs, 0 ≤ e.fdCount.toInt := by
  intro e he
  have hmem : e.standing ∈ (fdmonScan priv scan).allProcs.map FdmonEntry.standing :=
    List.mem_map_of_mem he
  rw [(fdmonScan_filling priv scan).entries] at hmem
  obtain ⟨r, hr, hstanding⟩ := List.mem_map.1 hmem
  obtain ⟨p, -, hp⟩ := List.mem_filterMap.1 (List.mem_of_mem_take hr)
  have hcount : r.fdCount = e.fdCount := congrArg Standing.fdCount hstanding
  rw [← hcount]
  exact FdSample.reading_nonneg hp

variable {priv scan}

/-- The entries after the first sort, which is always one by descriptors. -/
theorem consumers_right (qsort : FullQsort)
    (hfits : (scan.table priv.initial).length ≤ maxProcs) :
    Ranking (fun t : Standing => t.fdCount.toInt) topCount (scan.table priv.initial)
      (((qsort.sort cmpFdCountDesc (fdmonScan priv scan).allProcs).take topCount).map
        FdmonEntry.standing) := by
  have hnonneg := count_nonneg priv scan
  have hperm := qsort.perm cmpFdCountDesc (fdmonScan priv scan).allProcs
  have hsorted := qsort.sortedOn cmpFdCountDesc _ (ordersOn_count hnonneg)
  rw [List.map_take]
  refine .of_sorted ?_ ?_ topCount
  · rw [← (scan_table priv scan hfits).1]
    exact hperm.map _
  · rw [List.pairwise_map]
    exact hsorted.imp_of_mem fun {e e'} he he' hle =>
      (sub_le_zero (hnonneg e (hperm.mem_iff.1 he)) (hnonneg e' (hperm.mem_iff.1 he'))).1 hle

theorem consumers_perm (qsort : FullQsort)
    (hfits : (scan.table priv.initial).length ≤ maxProcs) :
    ((qsort.sort cmpFdCountDesc (fdmonScan priv scan).allProcs).map
      FdmonEntry.standing).Perm (scan.table priv.initial) := by
  rw [← (scan_table priv scan hfits).1]
  exact (qsort.perm _ _).map _

theorem leakers_right (qsort : FullQsort)
    (hfits : (scan.table priv.initial).length ≤ maxProcs)
    (h : OrdersOn cmpChange (scan.table priv.initial) ∨
      ∀ t ∈ grown (scan.table priv.initial), ∀ t' ∈ grown (scan.table priv.initial),
        t.fdChange = t'.fdChange) :
    Ranking (fun t : Standing => t.fdChange.toInt) topCount (grown (scan.table priv.initial))
      ((fdmonCollect qsort.toQsort priv (some scan)).1.leakers.map FdmonEntry.standing) := by
  have hperm := consumers_perm qsort hfits
  show Ranking _ _ _ ((((qsort.sort cmpFdChangeDesc (qsort.sort cmpFdCountDesc
    (fdmonScan priv scan).allProcs)).filter fun e => e.fdChange > 0).take topCount).map
      FdmonEntry.standing)
  rw [List.map_take]
  exact .of_sorted (grown_perm (((qsort.perm _ _).map _).trans hperm))
    (leakers_sorted hperm qsort h) topCount

/-- If the leakers are right whatever `qsort` does, nothing is left to it. -/
theorem order_of_leakers (hfits : (scan.table priv.initial).length ≤ maxProcs)
    (h : ∀ qsort : FullQsort, Ranking (fun t : Standing => t.fdChange.toInt) topCount
      (grown (scan.table priv.initial))
      ((fdmonCollect qsort.toQsort priv (some scan)).1.leakers.map FdmonEntry.standing)) :
    OrdersOn cmpChange (scan.table priv.initial) ∨
      ∀ t ∈ grown (scan.table priv.initial), ∀ t' ∈ grown (scan.table priv.initial),
        t.fdChange = t'.fdChange := by
  by_contra hnot
  push Not at hnot
  obtain ⟨hon, t, ht, t', ht', hne⟩ := hnot
  have hcount := ordersOn_count (count_nonneg priv scan)
  have hperm : ((sortOn cmpFdCountDesc (fdmonScan priv scan).allProcs).map
      FdmonEntry.standing).Perm (scan.table priv.initial) := by
    rw [← FullQsort.unruly_sort 0 hcount]
    exact consumers_perm _ hfits
  have hwrong : ∃ i, ¬ Ranking (fun t : Standing => t.fdChange.toInt) topCount
      (grown (scan.table priv.initial)) (((((FullQsort.unruly i).sort cmpFdChangeDesc
        (sortOn cmpFdCountDesc (fdmonScan priv scan).allProcs)).filter fun e =>
          e.fdChange > 0).take topCount).map FdmonEntry.standing) := by
    rcases lt_or_gt_of_ne (fun heq => hne (Int32.toInt_inj.1 heq)) with hless | hless
    · exact leakers_wrong hperm ht ht' hless hon
    · exact leakers_wrong hperm ht' ht hless hon
  obtain ⟨i, hi⟩ := hwrong
  have hright := h (.unruly i)
  simp only [fdmonCollect, FullQsort.unruly_sort i hcount] at hright
  exact hi hright

end

/-- **fdmon's lists and sums**, from any state and whatever `qsort` makes of a comparison that
does not order the processes: they are those of the whole table exactly when it has no more than
100 processes, the sum of their descriptors is an `int`, and the differences of the changes order
them, unless all that have grown have grown by the same number. -/
theorem fdmon_top_right_iff (priv : FdmonPriv) (scan : FdScan) :
    (∀ qsort : FullQsort, TopRight (scan.table priv.initial)
      (fdmonCollect qsort.toQsort priv (some scan)).1) ↔
    (scan.table priv.initial).length ≤ maxProcs ∧
      ((scan.table priv.initial).map fun t => t.fdCount.toInt).sum < 2 ^ 31 ∧
      (OrdersOn cmpChange (scan.table priv.initial) ∨
        ∀ t ∈ grown (scan.table priv.initial), ∀ t' ∈ grown (scan.table priv.initial),
          t.fdChange = t'.fdChange) := by
  have hnonneg : 0 ≤ ((scan.table priv.initial).map fun t => t.fdCount.toInt).sum := by
    rw [table_total]
    exact sum_nonneg scan
  constructor
  · intro h
    have hright := h (.unruly 0)
    have hfits : (scan.table priv.initial).length ≤ maxProcs := by
      have hprocs := procs_le priv scan (FullQsort.unruly 0).toQsort
      rw [hright.procs] at hprocs
      exact_mod_cast hprocs
    refine ⟨hfits, ?_, order_of_leakers hfits fun qsort => (h qsort).leakers⟩
    rw [← toInt_ofInt_eq_iff hnonneg, ← (scan_table priv scan hfits).2.1]
    exact hright.total
  · rintro ⟨hfits, hsum, horder⟩ qsort
    obtain ⟨-, htotal, hprocs⟩ := scan_table priv scan hfits
    refine ⟨consumers_right qsort hfits, leakers_right qsort hfits horder, ?_, ?_⟩
    · rw [← (toInt_ofInt_eq_iff hnonneg).2 hsum, ← htotal]
      rfl
    · have hsmall : (scan.table priv.initial).length < 2 ^ 31 :=
        Nat.lt_of_le_of_lt hfits (by decide)
      rw [← Int32.toInt_ofNat_of_lt hsmall, ← hprocs]
      rfl

/-- Processes that have one file open each. -/
def manyProcs (n : Fin 1024) : FdScan where
  procs := (List.range n).map fun i => {
    pid := .ofNat (i + 1)
    start := 0
    fds := some [(CStr.lit "/").bytes]
    cmdline := none
    comm := none
    fds_lt := by
      rintro links ⟨⟩
      decide }
  stack := fun _ => []
  distinct := by
    rw [List.map_map, List.nodup_map_iff_inj_on List.nodup_range]
    intro i hi j hj hij
    rw [List.mem_range] at hi hj
    have hn := n.isLt
    have hint := congrArg Int32.toInt hij
    simp only [Function.comp_apply] at hint
    rw [Int32.toInt_ofNat_of_lt (by omega), Int32.toInt_ofNat_of_lt (by omega)] at hint
    omega

/-- One process more than a scan takes. -/
theorem fdmon_top_wrong :
    ¬ TopRight ((manyProcs 101).table fdmonInit.initial)
      (fdmonCollect .merge fdmonInit (some (manyProcs 101))).1 := by
  intro h
  have hle := procs_le fdmonInit (manyProcs 101) .merge
  rw [h.procs] at hle
  exact absurd hle (by decide)

end Fdmon

end Qmem
