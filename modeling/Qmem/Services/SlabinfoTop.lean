import Qmem.Lib.Attempts
import Qmem.ProcContents
import Qmem.Services.Slabinfo

/-!
# The caches that slabinfo reports

A cache is found in the sample before by its name. A reading that fails leaves the last sample
where it is, so what is compared are always two consecutive samples, and the lists are the largest
changes on either side.

Main result: `slabs_right`.
-/

namespace Qmem

open CLib

namespace Slabinfo

/-! ## What a sample holds -/

/-- A cache as it is parsed. -/
structure SlabCacheInfo.Parsed (slab : SlabCacheInfo) : Prop where
  name : slab.name.length ≤ 63
  size : slab.sizeBytes = slab.numObjs.toInt64 * slab.objSize.toInt64

theorem length_of_string {width : Nat} {ds : List Directive} {s word : Bytes}
    {values : List Scanned} (h : sscanf (.string width :: ds) s = .text word :: values) :
    word.length ≤ width := by
  rw [sscanf, Directive.scan] at h
  by_cases hnone : ((s.dropWhile isspace).takeWhile isWordChar).take width = []
  · rw [if_pos hnone] at h
    exact absurd h (List.cons_ne_nil _ _).symm
  · rw [if_neg hnone] at h
    have hword := (List.cons.inj h).1
    rw [Scanned.text.injEq] at hword
    rw [← hword]
    exact List.length_take_le _ _

theorem slabLine_parsed {slabs : List SlabCacheInfo} (h : ∀ slab ∈ slabs, slab.Parsed)
    (line : Bytes) : ∀ slab ∈ slabLine slabs line, slab.Parsed := by
  rw [slabLine]
  split
  · exact h
  · split
    · case h_1 name _ numObjs objSize hscan =>
      intro slab hslab
      rcases List.mem_append.1 hslab with hslab | hslab
      · exact h slab hslab
      · rw [List.mem_singleton.1 hslab]
        refine ⟨?_, rfl⟩
        have hname : (cstr (name ++ [0])).bytes.length ≤ name.length := by
          have hnul : (name ++ [0])[name.length]? = some 0 := List.getElem?_concat_length
          exact cstr_length_le hnul
        exact hname.trans (length_of_string hscan)
    · exact h

theorem slabLoop_parsed (lines : List Bytes) {slabs : List SlabCacheInfo}
    (h : ∀ slab ∈ slabs, slab.Parsed) : ∀ slab ∈ slabLoop lines slabs, slab.Parsed := by
  induction lines generalizing slabs with
  | nil => exact h
  | cons line lines ih =>
    rw [slabLoop]
    split
    · exact ih (slabLine_parsed h line)
    · exact h

theorem parseSlabinfo_parsed {file : ProcFile} {buf : Bytes} {sample : List SlabCacheInfo}
    (h : parseSlabinfo file buf = some sample) : ∀ slab ∈ sample, slab.Parsed := by
  rw [parseSlabinfo] at h
  split at h
  · exact absurd h.symm (Option.some_ne_none _)
  · rw [← Option.some.inj h]
    exact slabLoop_parsed _ fun slab hslab => absurd hslab List.not_mem_nil

/-- The product of two `int`s. -/
theorem toInt_mul (a b : Int32) :
    (a.toInt64 * b.toInt64).toInt = a.toInt * b.toInt ∧
      -2 ^ 62 < a.toInt * b.toInt ∧ a.toInt * b.toInt ≤ 2 ^ 62 := by
  have ha := a.le_toInt
  have ha' := a.toInt_lt
  have hb := b.le_toInt
  have hb' := b.toInt_lt
  have hmin : -2 ^ 62 < a.toInt * b.toInt := by nlinarith
  have hmax : a.toInt * b.toInt ≤ 2 ^ 62 := by nlinarith
  refine ⟨?_, hmin, hmax⟩
  rw [Int64.toInt_mul, Int32.toInt_toInt64, Int32.toInt_toInt64,
    Int.bmod_eq_of_le (by omega) (by omega)]

/-- The difference of two sizes fits. -/
theorem toInt_sizes {prev cur : SlabCacheInfo} (hprev : prev.Parsed) (hcur : cur.Parsed) :
    (cur.sizeBytes - prev.sizeBytes).toInt = cur.sizeBytes.toInt - prev.sizeBytes.toInt ∧
      -2 ^ 63 < cur.sizeBytes.toInt - prev.sizeBytes.toInt := by
  obtain ⟨hp, hpmin, hpmax⟩ := toInt_mul prev.numObjs prev.objSize
  obtain ⟨hc, hcmin, hcmax⟩ := toInt_mul cur.numObjs cur.objSize
  rw [← hprev.size] at hp
  rw [← hcur.size] at hc
  refine ⟨?_, by omega⟩
  rw [Int64.toInt_sub, Int.bmod_eq_of_le (by omega) (by omega)]

/-! ## What should be reported -/

/-- A cache in two samples, the earlier first. -/
abbrev SlabPair := SlabCacheInfo × SlabCacheInfo

/-- How many bytes it has grown. -/
def growth (c : SlabPair) : Int := c.2.sizeBytes.toInt - c.1.sizeBytes.toInt

/-- The caches of the present sample that are in the sample before as well. -/
def inBoth (before now : List SlabCacheInfo) : List SlabPair :=
  now.flatMap fun cur => (before.filter fun prev => prev.name = cur.name).map fun prev => (prev, cur)

/-- Those whose size has changed by 512 KiB at least. -/
def changedCaches (before now : List SlabCacheInfo) : List SlabPair :=
  (inBoth before now).filter fun c => 512 * 1024 ≤ |growth c|

/-- An entry that shows a cache: its present values, and the differences. Counts of objects are
not negative, and then their difference is exact as well. -/
structure Shows (c : SlabPair) (e : SlabEntry) : Prop where
  name : e.name = c.2.name
  sizeBytes : e.sizeBytes = c.2.sizeBytes
  numObjs : e.numObjs = c.2.numObjs
  objSize : e.objSize = c.2.objSize
  deltaBytes : e.deltaBytes.toInt = c.2.sizeBytes.toInt - c.1.sizeBytes.toInt
  deltaObjs : e.deltaObjs = c.2.numObjs - c.1.numObjs
  deltaObjsExact : 0 ≤ c.1.numObjs.toInt → 0 ≤ c.2.numObjs.toInt →
    e.deltaObjs.toInt = c.2.numObjs.toInt - c.1.numObjs.toInt

/-- The lists of a collection that read `now` after `before`: of the entries that show the changed
caches, the twenty that grew most and the twenty that shrank most. -/
def SlabsRight (before now : List SlabCacheInfo) (growers shrinkers : List SlabEntry) : Prop :=
  ∃ changes : List SlabEntry, List.Forall₂ Shows (changedCaches before now) changes ∧
    Ranking (fun e => e.deltaBytes.toInt) 20 (changes.filter fun e => 0 < e.deltaBytes.toInt)
      growers ∧
    Ranking (fun e => -e.deltaBytes.toInt) 20 (changes.filter fun e => e.deltaBytes.toInt < 0)
      shrinkers ∧
    ∀ e ∈ growers, ∀ e' ∈ shrinkers, e.name ≠ e'.name

/-! ## The changes -/

theorem toInt_objs {a b : Int32} (ha : 0 ≤ a.toInt) (hb : 0 ≤ b.toInt) :
    (b - a).toInt = b.toInt - a.toInt := by
  have ha' := a.toInt_lt
  have hb' := b.toInt_lt
  rw [Int32.toInt_sub, Int.bmod_eq_of_le (by omega) (by omega)]

/-- The code's test of the size of a change. -/
theorem absDelta_iff {delta : Int64} (h : -2 ^ 63 < delta.toInt) :
    (if delta < 0 then -delta else delta) ≥ minDeltaBytes ↔ 512 * 1024 ≤ |delta.toInt| := by
  have hmin : minDeltaBytes.toInt = 512 * 1024 := by decide
  have hmax := delta.toInt_lt
  rw [ge_iff_le, Int64.le_iff_toInt_le, hmin]
  by_cases hneg : delta < 0
  · have hlt : delta.toInt < 0 := by simpa [Int64.lt_iff_toInt_lt] using hneg
    rw [if_pos hneg, abs_of_neg hlt, Int64.toInt_neg, Int.bmod_eq_of_le (by omega) (by omega)]
  · have hge : 0 ≤ delta.toInt := by simpa [Int64.lt_iff_toInt_lt] using hneg
    rw [if_neg hneg, abs_of_nonneg hge]

/-- What becomes of a cache that is in both samples. -/
theorem slabChange_found {before : List SlabCacheInfo} {prev cur : SlabCacheInfo}
    (hfind : findSlab before cur.name = some prev) (hprev : prev.Parsed) (hcur : cur.Parsed) :
    if 512 * 1024 ≤ |growth (prev, cur)| then
      ∃ e, slabChange before cur = some e ∧ Shows (prev, cur) e
    else slabChange before cur = none := by
  obtain ⟨hdelta, hmin⟩ := toInt_sizes hprev hcur
  have htest := absDelta_iff (hdelta ▸ hmin)
  rw [hdelta] at htest
  simp only [slabChange, hfind, Option.bind_some]
  by_cases hbig : 512 * 1024 ≤ |growth (prev, cur)|
  · rw [if_pos hbig, if_pos (htest.2 hbig)]
    exact ⟨_, rfl, CStr.cut_eq_self hcur.name, rfl, rfl, rfl, hdelta, rfl, toInt_objs⟩
  · rw [if_neg hbig, if_neg fun h => hbig (htest.1 h)]

/-- In a sample without duplicates a cache is found once. -/
theorem filter_name {before : List SlabCacheInfo} (h : (before.map SlabCacheInfo.name).Nodup)
    (name : CStr) :
    before.filter (fun prev => prev.name = name) = (findSlab before name).toList := by
  rw [findSlab]
  induction before with
  | nil => rfl
  | cons prev before ih =>
    rw [List.map_cons, List.nodup_cons] at h
    by_cases hname : prev.name = name
    · have hnone : before.filter (fun prev => prev.name = name) = [] := by
        rw [List.filter_eq_nil_iff]
        intro other hother
        have hne : other.name ≠ name := fun heq =>
          h.1 (hname ▸ heq ▸ List.mem_map_of_mem hother)
        simpa using hne
      rw [List.filter_cons_of_pos (by simpa using hname),
        List.find?_cons_of_pos (by simpa using hname), hnone]
      rfl
    · rw [List.filter_cons_of_neg (by simpa using hname),
        List.find?_cons_of_neg (by simpa using hname), ih h.2]

/-- The entries show the changed caches. -/
theorem changes_shown {before now : List SlabCacheInfo}
    (hnodup : (before.map SlabCacheInfo.name).Nodup) (hbefore : ∀ slab ∈ before, slab.Parsed)
    (hnow : ∀ slab ∈ now, slab.Parsed) :
    List.Forall₂ Shows (changedCaches before now) (now.filterMap (slabChange before)) := by
  induction now with
  | nil => exact List.Forall₂.nil
  | cons cur now ih =>
    obtain ⟨hcur, hrest⟩ := List.forall_mem_cons.1 hnow
    have htail := ih hrest
    have hsplit : changedCaches before (cur :: now) =
        ((findSlab before cur.name).toList.map fun prev => (prev, cur)).filter
          (fun c => 512 * 1024 ≤ |growth c|) ++ changedCaches before now := by
      rw [changedCaches, inBoth, List.flatMap_cons, List.filter_append, filter_name hnodup]
      rfl
    rw [hsplit]
    cases hfind : findSlab before cur.name with
    | none =>
      have hnone : slabChange before cur = none := by rw [slabChange, hfind]; rfl
      rw [List.filterMap_cons_none hnone]
      exact htail
    | some prev =>
      have hchange := slabChange_found hfind (hbefore prev (List.mem_of_find?_eq_some hfind)) hcur
      by_cases hbig : 512 * 1024 ≤ |growth (prev, cur)|
      · rw [if_pos hbig] at hchange
        obtain ⟨e, he, hshows⟩ := hchange
        have hkept : ([(prev, cur)].filter fun c => 512 * 1024 ≤ |growth c|) = [(prev, cur)] :=
          List.filter_cons_of_pos (decide_eq_true hbig)
        rw [List.filterMap_cons_some he, Option.toList_some, List.map_singleton, hkept]
        exact List.Forall₂.cons hshows htail
      · rw [if_neg hbig] at hchange
        have hdropped : ([(prev, cur)].filter fun c => 512 * 1024 ≤ |growth c|) = [] :=
          List.filter_cons_of_neg fun h => hbig (of_decide_eq_true h)
        rw [List.filterMap_cons_none hchange, Option.toList_some, List.map_singleton, hdropped]
        exact htail

/-- A cache changes at most once. -/
theorem changes_nodup {now : List SlabCacheInfo} (before : List SlabCacheInfo)
    (hnodup : (now.map SlabCacheInfo.name).Nodup) (hnow : ∀ slab ∈ now, slab.Parsed) :
    ((now.filterMap (slabChange before)).map SlabEntry.name).Nodup := by
  have hname {cur : SlabCacheInfo} {e : SlabEntry} (hcur : cur.Parsed)
      (he : slabChange before cur = some e) : e.name = cur.name := by
    rw [slabChange, Option.bind_eq_some_iff] at he
    obtain ⟨prev, -, he⟩ := he
    rw [Option.ite_none_right_eq_some] at he
    rw [← Option.some.inj he.2]
    exact CStr.cut_eq_self hcur.name
  have hpairs : now.Pairwise fun cur cur' => cur.name ≠ cur'.name := List.pairwise_map.1 hnodup
  rw [List.Nodup, List.pairwise_map, List.pairwise_filterMap]
  refine hpairs.imp_of_mem fun {cur cur'} hcur hcur' hne e he e' he' => ?_
  rw [hname (hnow cur hcur) he, hname (hnow cur' hcur') he']
  exact hne

/-! ## Runs -/

/-- The service after it has collected these files, each with what the array of `parse_slabinfo`
held before it. -/
def slabinfoRun (qsort : Qsort) (files : List (ProcFile × Bytes)) : SlabinfoPriv :=
  Run.state (fun priv read => (slabinfoCollect qsort priv read.1 read.2).1) slabinfoInit files

/-- The samples of a run; a file that cannot be read gives none. -/
def samples (files : List (ProcFile × Bytes)) : List (List SlabCacheInfo) :=
  files.filterMap fun read => parseSlabinfo read.1 read.2

/-- The service holds the last sample. -/
theorem slabinfoRun_last (qsort : Qsort) {files : List (ProcFile × Bytes)}
    {sample : List SlabCacheInfo} (h : (samples files).getLast? = some sample) :
    (slabinfoRun qsort files).current = sample ∧ (slabinfoRun qsort files).hasPrevious = true := by
  have hlast : Attempts.last (fun read : ProcFile × Bytes => parseSlabinfo read.1 read.2) files =
      some sample := h
  refine Attempts.holds_last (fun (priv : SlabinfoPriv) slabs =>
    priv.current = slabs ∧ priv.hasPrevious = true) ?_ ?_ hlast
  · intro priv read current hparse
    simp only [slabinfoCollect, hparse]
    split
    · exact ⟨rfl, trivial⟩
    · exact ⟨rfl, trivial⟩
  · intro priv read slabs hnone hholds
    simp only [slabinfoCollect, hnone]
    exact hholds

/-- What a collection makes of its sample, when there has been one before. -/
theorem slabinfoCollect_lists (qsort : Qsort) {priv : SlabinfoPriv} {file : ProcFile} {buf : Bytes}
    {now : List SlabCacheInfo} (hprevious : priv.hasPrevious = true)
    (hnow : parseSlabinfo file buf = some now) :
    let changes := qsort.sort compareGrowers (now.filterMap (slabChange priv.current))
    (slabinfoCollect qsort priv file buf).1.growers =
        (changes.filter fun e => e.deltaBytes > 0).take topN ∧
      (slabinfoCollect qsort priv file buf).1.shrinkers =
        ((qsort.sort compareShrinkers changes).filter fun e => e.deltaBytes < 0).take topN := by
  simp [slabinfoCollect, hnow, hprevious]

/-- After every sample but the first, the lists are the largest changes of the caches that are in
this sample and in the one before; readings in between that failed do not count. -/
theorem slabs_right (qsort : Qsort) (files : List (ProcFile × Bytes)) (file : ProcFile)
    (buf : Bytes) (before now : List SlabCacheInfo)
    (hbefore : (samples files).getLast? = some before)
    (hnow : parseSlabinfo file buf = some now)
    (hbeforeNames : (before.map SlabCacheInfo.name).Nodup)
    (hnowNames : (now.map SlabCacheInfo.name).Nodup) :
    let priv := slabinfoRun qsort (files ++ [(file, buf)])
    priv.current = now ∧ SlabsRight before now priv.growers priv.shrinkers := by
  intro priv
  obtain ⟨hcurrent, hprevious⟩ := slabinfoRun_last qsort hbefore
  obtain ⟨hgrowers, hshrinkers⟩ := slabinfoCollect_lists qsort hprevious hnow
  rw [hcurrent] at hgrowers hshrinkers
  have hpriv : priv = (slabinfoCollect qsort (slabinfoRun qsort files) file buf).1 := by
    simp only [priv, slabinfoRun, Run.state_append, Run.state_cons, Run.state_nil]
  have hlast : Attempts.last (fun read : ProcFile × Bytes => parseSlabinfo read.1 read.2)
      (files ++ [(file, buf)]) = some now :=
    Attempts.last_concat_some (a := (file, buf)) hnow files
  refine ⟨(slabinfoRun_last qsort hlast).1, ?_⟩
  have hparsed : ∀ slab ∈ before, slab.Parsed := by
    obtain ⟨read, -, hread⟩ := Attempts.exists_of_last hbefore
    exact parseSlabinfo_parsed hread
  have hchanges := changes_nodup before hnowNames (parseSlabinfo_parsed hnow)
  have hperm := qsort.perm compareGrowers (now.filterMap (slabChange before))
  have hpos (e : SlabEntry) : decide (e.deltaBytes > 0) = decide (0 < e.deltaBytes.toInt) := by
    simp [Int64.lt_iff_toInt_lt]
  have hneg (e : SlabEntry) : decide (e.deltaBytes < 0) = decide (e.deltaBytes.toInt < 0) := by
    simp [Int64.lt_iff_toInt_lt]
  rw [hpriv, hgrowers, hshrinkers]
  simp only [hpos, hneg]
  refine ⟨now.filterMap (slabChange before),
    changes_shown hbeforeNames hparsed (parseSlabinfo_parsed hnow), ?_, ?_, ?_⟩
  · rw [compareGrowers, compareDescending_int64]
    exact qsort.ranking _ 20 _ (List.Perm.refl _)
  · rw [compareShrinkers, compareAscending_int64]
    exact qsort.ranking _ 20 _ hperm
  · intro e he e' he' hname
    obtain ⟨he, hgrown⟩ := List.mem_filter.1 (List.mem_of_mem_take he)
    obtain ⟨he', hshrunk⟩ := List.mem_filter.1 (List.mem_of_mem_take he')
    have hmem := hperm.mem_iff.1 he
    have hmem' := hperm.mem_iff.1 ((qsort.perm _ _).mem_iff.1 he')
    have heq : e = e' := List.inj_on_of_nodup_map hchanges hmem hmem' hname
    rw [heq, decide_eq_true_eq] at hgrown
    rw [decide_eq_true_eq] at hshrunk
    omega

/-- Two caches, of which one grows by a MiB and one shrinks by as much. -/
def slabSample (a b : String) : ProcFile :=
  some [.data (CStr.lit (a ++ b)).bytes]

theorem slabs_right_two :
    let file := slabSample "a 1 1 1048576\n" "b 1 2 1048576\n"
    let file' := slabSample "b 1 1 1048576\n" "a 1 2 1048576\n"
    ∃ before now, SlabsRight before now
      (slabinfoRun .merge ([(file, []), (none, [])] ++ [(file', [])])).growers
      (slabinfoRun .merge ([(file, []), (none, [])] ++ [(file', [])])).shrinkers := by
  intro file file'
  have hbefore : ((samples [(file, []), (none, [])]).getLast?.map
      fun s => s.map SlabCacheInfo.name) = some [.lit "a", .lit "b"] := by decide +kernel
  have hnow : ((parseSlabinfo file' []).map fun s => s.map SlabCacheInfo.name) =
      some [.lit "b", .lit "a"] := by decide +kernel
  obtain ⟨before, hb, hbnames⟩ := Option.map_eq_some_iff.1 hbefore
  obtain ⟨now, hn, hnnames⟩ := Option.map_eq_some_iff.1 hnow
  refine ⟨before, now, (slabs_right .merge _ file' [] before now hb hn ?_ ?_).2⟩
  · rw [hbnames]
    decide
  · rw [hnnames]
    decide

end Slabinfo

end Qmem
