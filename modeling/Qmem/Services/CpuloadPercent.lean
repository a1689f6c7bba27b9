import Qmem.Services.CpuloadTop
import Mathlib.Data.List.GetD
import Mathlib.Data.UInt

/-!
# The system's percentages

Each is the difference of one counter over the difference of the total, both unsigned. They stay
below 100 as long as a counter and the other six together do not wrap around between them; a
counter that goes down while the total goes up does (the kernel lets iowait go down).

Main result: `percents_in_range_iff`.
-/

namespace Qmem

open CLib PoolTable

namespace Cpuload

/-- The unsigned differences of the seven numbers in the first line of /proc/stat. -/
def moves (old new : List UInt64) : List UInt64 := List.zipWith (fun b a => b - a) new old

/-- Number `i` and the other six together have not gone around between them. -/
def NoWrap (old new : List UInt64) (i : Nat) : Prop :=
  ((moves old new).getD i 0).toNat + ((moves old new).eraseIdx i).sum.toNat < 2 ^ 64

instance (old new : List UInt64) (i : Nat) : Decidable (NoWrap old new i) :=
  inferInstanceAs (Decidable (_ < _))

/-- user, system, idle and iowait in the line. -/
def shown : List Nat := [0, 2, 3, 4]

structure CpuloadSystem.InRange (s : CpuloadSystem) : Prop where
  user : 0 ≤ s.userPercent ∧ s.userPercent ≤ 100
  system : 0 ≤ s.systemPercent ∧ s.systemPercent ≤ 100
  idle : 0 ≤ s.idlePercent ∧ s.idlePercent ≤ 100
  iowait : 0 ≤ s.iowaitPercent ∧ s.iowaitPercent ≤ 100

/-! ## One percentage -/

theorem percent_nonneg (delta total : UInt64) : 0 ≤ percent delta total := by
  rw [percent]
  positivity

theorem percent_le_iff {delta total : UInt64} (htotal : 0 < total) :
    percent delta total ≤ 100 ↔ delta.toNat ≤ total.toNat := by
  have hpos : (0 : ℚ) < total.toNat := by exact_mod_cast UInt64.lt_iff_toNat_lt.1 htotal
  rw [percent, div_le_iff₀ hpos, ← Nat.cast_le (α := ℚ)]
  constructor <;> intro h <;> linarith

/-- A part is no more than the whole unless they go around. -/
theorem toNat_le_add_iff (part rest : UInt64) :
    part.toNat ≤ (part + rest).toNat ↔ part.toNat + rest.toNat < 2 ^ 64 := by
  have hpart := part.toNat_lt
  have hrest := rest.toNat_lt
  rw [UInt64.toNat_add]
  omega

theorem percent_in_range_iff {part rest total : UInt64} (htotal : 0 < total)
    (hsum : total = part + rest) :
    (0 ≤ percent part total ∧ percent part total ≤ 100) ↔ part.toNat + rest.toNat < 2 ^ 64 := by
  rw [percent_le_iff htotal, hsum, toNat_le_add_iff]
  exact and_iff_right (percent_nonneg part (part + rest))

/-! ## Two samples in a row -/

/-- The counters in the first line, all seven of them. -/
def countersOf (vs : List UInt64) : CpuCounters where
  user := vs.getD 0 0
  nice := vs.getD 1 0
  system := vs.getD 2 0
  idle := vs.getD 3 0
  iowait := vs.getD 4 0
  irq := vs.getD 5 0
  softirq := vs.getD 6 0
  total := vs.sum

theorem parseProcStat_full (c : CpuCounters) {vs : List UInt64} (h : vs.length = 7) :
    parseProcStat c (some vs) = (countersOf vs, true) := by
  obtain ⟨a, b, c', d, e, f, g, rfl⟩ : ∃ a b c d e f g, vs = [a, b, c, d, e, f, g] := by
    match vs, h with
    | [a, b, c, d, e, f, g], _ => exact ⟨a, b, c, d, e, f, g, rfl⟩
  have hsum : [a, b, c', d, e, f, g].sum = a + b + c' + d + e + f + g := by
    simp only [List.sum_cons, List.sum_nil, UInt64.add_zero, UInt64.add_assoc]
  simp only [parseProcStat, countersOf, hsum]
  rfl

/-- A collection keeps the counters it has read. -/
theorem collect_currSys (qsort : Qsort) (priv : CpuloadPriv) {vs : List UInt64}
    (h : vs.length = 7) (dir : Option (List CpuSample)) :
    (cpuloadCollect qsort priv ⟨some vs, dir⟩).1.currSys = countersOf vs := by
  have hsample : (systemSample priv (some vs)).1.currSys = countersOf vs := by
    rw [systemSample, parseProcStat_full priv.currSys h]
  cases dir with
  | none => exact hsample
  | some ps =>
    show (cpuloadScan priv (some vs) ps).priv.currSys = _
    exact (scan_system _ ps _ 0).1.trans hsample

theorem collect_systemStats (qsort : Qsort) (priv : CpuloadPriv) (sample : Sample) :
    (cpuloadCollect qsort priv sample).1.systemStats =
      (systemSample priv sample.sys).1.systemStats := by
  obtain ⟨sys, dir⟩ := sample
  cases dir with
  | none => rfl
  | some ps => exact (scan_system _ ps _ 0).2

/-- What the second of two samples computes. -/
theorem systemSample_percents {priv : CpuloadPriv} {old new : List UInt64}
    (hcurr : priv.currSys = countersOf old) (hnew : new.length = 7)
    (hseen : priv.hasPrevious = true) (htotal : 0 < new.sum - old.sum) :
    (systemSample priv (some new)).1.systemStats = {
      userPercent := percent (new.getD 0 0 - old.getD 0 0) (new.sum - old.sum)
      systemPercent := percent (new.getD 2 0 - old.getD 2 0) (new.sum - old.sum)
      idlePercent := percent (new.getD 3 0 - old.getD 3 0) (new.sum - old.sum)
      iowaitPercent := percent (new.getD 4 0 - old.getD 4 0) (new.sum - old.sum) } := by
  rw [systemSample, parseProcStat_full priv.currSys hnew, hcurr]
  exact if_pos ⟨htotal, hseen⟩

theorem systemSample_total {priv : CpuloadPriv} {old new : List UInt64}
    (hcurr : priv.currSys = countersOf old) (hnew : new.length = 7) :
    (systemSample priv (some new)).2 = new.sum - old.sum := by
  rw [systemSample, parseProcStat_full priv.currSys hnew, hcurr]
  rfl

theorem sum_moves {old new : List UInt64} (hlen : old.length = new.length) :
    (moves old new).sum = new.sum - old.sum := by
  induction new generalizing old with
  | nil =>
    rw [List.length_eq_zero_iff.1 hlen]
    rfl
  | cons b new ih =>
    obtain ⟨a, old, rfl⟩ := List.exists_cons_of_length_eq_add_one hlen
    have hrest := ih (Nat.succ.inj hlen)
    simp only [moves, List.zipWith_cons_cons, List.sum_cons] at hrest ⊢
    rw [hrest]
    grind

theorem moves_getD {old new : List UInt64} (hlen : old.length = new.length) {i : Nat}
    (hi : i < new.length) : (moves old new).getD i 0 = new.getD i 0 - old.getD i 0 := by
  have hold : i < old.length := by omega
  simp [moves, List.getD_eq_getElem?_getD, List.getElem?_zipWith, List.getElem?_eq_getElem hi,
    List.getElem?_eq_getElem hold]

/-- One term and the others. -/
theorem sum_eq_getD_add (ms : List UInt64) {i : Nat} (hi : i < ms.length) :
    ms.sum = ms.getD i 0 + (ms.eraseIdx i).sum := by
  induction ms generalizing i with
  | nil => exact absurd hi (Nat.not_lt_zero i)
  | cons m ms ih =>
    cases i with
    | zero => rfl
    | succ i =>
      have hrest := ih (Nat.lt_of_succ_lt_succ hi)
      rw [List.getD_cons_succ, List.eraseIdx_cons_succ, List.sum_cons, List.sum_cons, hrest]
      grind

/-! ## What going around means -/

/-- The differences of the numbers, with their signs. -/
def changes (old new : List UInt64) : List Int :=
  List.zipWith (fun b a => (b.toNat : Int) - a.toNat) new old

theorem toNat_ofInt (x : Int) : (UInt64.ofInt x).toNat = (x % 2 ^ 64).toNat := by
  rw [UInt64.ofInt, UInt64.toNat_ofNat']
  omega

theorem sub_eq_ofInt (b a : UInt64) : b - a = UInt64.ofInt ((b.toNat : Int) - a.toNat) := by
  apply UInt64.toNat_inj.1
  have ha := a.toNat_lt
  have hb := b.toNat_lt
  rw [toNat_ofInt, UInt64.toNat_sub]
  omega

theorem moves_eq (old new : List UInt64) : moves old new = (changes old new).map UInt64.ofInt := by
  rw [moves, changes, List.map_zipWith]
  congr 1
  funext b a
  exact sub_eq_ofInt b a

theorem sum_ofInt (cs : List Int) : (cs.map UInt64.ofInt).sum = UInt64.ofInt cs.sum := by
  induction cs with
  | nil => rfl
  | cons c cs ih => rw [List.map_cons, List.sum_cons, List.sum_cons, UInt64.ofInt_add, ih]

/-- Where the total goes up, and nothing moves by 2 ^ 63 or more, it means that the number or the
others together go down. -/
theorem noWrap_iff_of_rising (old new : List UInt64) (i : Nat) {own others : Int}
    (hown : (changes old new).getD i 0 = own)
    (hothers : ((changes old new).eraseIdx i).sum = others)
    (hsmall : own < 2 ^ 63) (hsmall' : others < 2 ^ 63) (hup : 0 < own + others) :
    NoWrap old new i ↔ 0 ≤ own ∧ 0 ≤ others := by
  have hmove : (moves old new).getD i 0 = UInt64.ofInt own := by
    rw [moves_eq, ← hown]
    exact List.getD_map (changes old new) 0 UInt64.ofInt
  have hrest : ((moves old new).eraseIdx i).sum = UInt64.ofInt others := by
    rw [moves_eq, List.eraseIdx_map, sum_ofInt, hothers]
  rw [NoWrap, hmove, hrest, toNat_ofInt, toNat_ofInt]
  omega

/-! ## The result -/

/-- **The percentages are between 0 and 100 exactly when no counter shown goes around together with
the other six.** -/
theorem percents_in_range_iff (qsort : Qsort) (priv : CpuloadPriv) (old new : List UInt64)
    (dir dir' : Option (List CpuSample)) (hold : old.length = 7) (hnew : new.length = 7)
    (hseen : (cpuloadCollect qsort priv ⟨some old, dir⟩).1.hasPrevious = true)
    (htotal : 0 < (systemSample (cpuloadCollect qsort priv ⟨some old, dir⟩).1 (some new)).2) :
    (cpuloadCollect qsort (cpuloadCollect qsort priv ⟨some old, dir⟩).1
        ⟨some new, dir'⟩).1.systemStats.InRange ↔ ∀ i ∈ shown, NoWrap old new i := by
  have hcurr := collect_currSys qsort priv hold dir
  rw [systemSample_total hcurr hnew] at htotal
  rw [collect_systemStats, systemSample_percents hcurr hnew hseen htotal]
  have hlen : old.length = new.length := hold.trans hnew.symm
  have hone (i : Nat) (hi : i < 7) :
      (0 ≤ percent (new.getD i 0 - old.getD i 0) (new.sum - old.sum) ∧
        percent (new.getD i 0 - old.getD i 0) (new.sum - old.sum) ≤ 100) ↔ NoWrap old new i := by
    have hmove := moves_getD hlen (i := i) (by omega)
    have hmoves : i < (moves old new).length := by
      rw [moves, List.length_zipWith]
      omega
    rw [NoWrap, hmove]
    apply percent_in_range_iff htotal
    rw [← sum_moves hlen, sum_eq_getD_add _ hmoves, hmove]
  constructor
  · intro h i hi
    fin_cases hi
    · exact (hone 0 (by omega)).1 h.user
    · exact (hone 2 (by omega)).1 h.system
    · exact (hone 3 (by omega)).1 h.idle
    · exact (hone 4 (by omega)).1 h.iowait
  · intro h
    exact {
      user := (hone 0 (by omega)).2 (h 0 (by decide))
      system := (hone 2 (by omega)).2 (h 2 (by decide))
      idle := (hone 3 (by omega)).2 (h 3 (by decide))
      iowait := (hone 4 (by omega)).2 (h 4 (by decide)) }

/-- All counters go up but softirq, which stays. -/
theorem percents_in_range_iff_rising :
    let old : List UInt64 := [10, 1, 20, 100, 5, 2, 3]
    let new : List UInt64 := [15, 2, 22, 140, 6, 3, 3]
    let before := (cpuloadCollect .merge (cpuloadInit 100) ⟨some old, some []⟩).1
    (cpuloadCollect .merge before ⟨some new, none⟩).1.systemStats.InRange :=
  (percents_in_range_iff .merge (cpuloadInit 100) [10, 1, 20, 100, 5, 2, 3]
    [15, 2, 22, 140, 6, 3, 3] (some []) none rfl rfl rfl (by decide)).2 (by decide)

/-- iowait goes down by 1 while idle goes up by 40: more than 10 ^ 18 percent. -/
theorem iowait_over_hundred :
    let old : List UInt64 := [10, 1, 20, 100, 5, 2, 3]
    let new : List UInt64 := [10, 1, 20, 140, 4, 2, 3]
    let before := (cpuloadCollect .merge (cpuloadInit 100) ⟨some old, some []⟩).1
    (systemSample before (some new)).2 = 39 ∧
      100 < (cpuloadCollect .merge before ⟨some new, none⟩).1.systemStats.iowaitPercent := by
  intro old new before
  have hcurr : before.currSys = countersOf old := collect_currSys .merge _ rfl (some [])
  have htotal : new.sum - old.sum = 39 := by decide
  refine ⟨(systemSample_total hcurr rfl).trans htotal, ?_⟩
  rw [collect_systemStats, systemSample_percents hcurr rfl rfl (by rw [htotal]; decide), htotal]
  exact not_le.1 fun hle => absurd ((percent_le_iff (by decide)).1 hle) (by decide)

end Cpuload

end Qmem
