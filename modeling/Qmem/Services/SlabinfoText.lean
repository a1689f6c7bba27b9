import Qmem.Lib.Table
import Qmem.ProcContents
import Qmem.Services.LastSample

/-!
# What slabinfo reads of a table

Lines that start like one of the two header lines are skipped wherever they stand; of the others
the name, the number of objects and their size are read, until the array of 512 caches is full.

Main result: `slabinfoCollect_table`.
-/

namespace Qmem

open CLib

namespace Slabinfo

/-- The line of a cache, without its newline: its columns, and whatever comes behind them. -/
structure SlabRow where
  name : Token isWordChar
  activeObjs : Column
  numObjs : Column
  objSize : Column
  rest : Bytes
  name_length : name.bytes.length ≤ 63
  name_nulFree : 0 ∉ name.bytes
  name_notMarked : ¬ (CStr.lit "slabinfo").bytes <+: name.bytes
  name_notComment : name.bytes.head? ≠ some 0x23
  activeObjs_lt : Json.natValue activeObjs.digits.bytes < 2 ^ 31
  numObjs_lt : Json.natValue numObjs.digits.bytes < 2 ^ 31
  objSize_lt : Json.natValue objSize.digits.bytes < 2 ^ 31
  rest_stops : Stops Json.isDigit rest
  rest_noNewline : 0x0a ∉ rest
  rest_nulFree : 0 ∉ rest

namespace SlabRow

def line (row : SlabRow) : Bytes :=
  row.name.bytes ++ (row.activeObjs.text ++ (row.numObjs.text ++ (row.objSize.text ++ row.rest)))

/-- The cache as it is stored. -/
def info (row : SlabRow) : SlabCacheInfo where
  name := ⟨row.name.bytes, row.name_nulFree⟩
  sizeBytes := .ofNat
    (Json.natValue row.numObjs.digits.bytes * Json.natValue row.objSize.digits.bytes)
  numObjs := .ofNat (Json.natValue row.numObjs.digits.bytes)
  objSize := .ofNat (Json.natValue row.objSize.digits.bytes)

end SlabRow

/-- A line of the table: a header line, or that of a cache. -/
inductive SlabLine where
  | header (text : Bytes) (marked : (CStr.lit "slabinfo").bytes <+: text ∨ text.head? = some 0x23)
      (noNewline : 0x0a ∉ text) (nulFree : 0 ∉ text)
  | cache (row : SlabRow)

namespace SlabLine

def text : SlabLine → Bytes
  | header text _ _ _ => text
  | cache row => row.line

def row : SlabLine → Option SlabRow
  | header _ _ _ _ => none
  | cache row => some row

end SlabLine

/-- The contents of the file; only the last line may have no newline. -/
def slabText (ended : Bool) (lines : List SlabLine) : Bytes := unlines ended (lines.map SlabLine.text)

/-! ## One line -/

/-- What the line at the start of `line` gives. -/
def slabEntry (line : Bytes) : Option SlabCacheInfo := (slabLine [] line).head?

theorem slabLine_entry (slabs : List SlabCacheInfo) (line : Bytes) :
    slabLine slabs line = slabs ++ (slabEntry line).toList := by
  rw [slabEntry, slabLine, slabLine]
  split
  · exact (List.append_nil slabs).symm
  · split
    · rfl
    · exact (List.append_nil slabs).symm

/-- **A header line** is skipped. -/
theorem slabEntry_header {text : Bytes}
    (h : (CStr.lit "slabinfo").bytes <+: text ∨ text.head? = some 0x23) (rest : Bytes) :
    slabEntry (text ++ rest) = none := by
  have hskip : (CStr.lit "slabinfo").bytes <+: text ++ rest ∨ (text ++ rest).head? = some 0x23 := by
    rcases h with hmark | hcomment
    · exact .inl (hmark.trans (List.prefix_append text rest))
    · refine .inr ?_
      rw [List.head?_append, hcomment]
      rfl
  rw [slabEntry, slabLine, if_pos hskip]
  rfl

/-- The size does not overflow. -/
theorem size_eq {m n : Nat} (hm : m < 2 ^ 31) (hn : n < 2 ^ 31) :
    (Int32.ofNat m).toInt64 * (Int32.ofNat n).toInt64 = .ofNat (m * n) := by
  have hread {k : Nat} (hk : k < 2 ^ 31) : (Int32.ofNat k).toInt64 = .ofNat k :=
    Int32.toInt64_ofNat' (Int.ofNat_le.2 (Nat.le_sub_one_of_lt hk))
  rw [hread hm, hread hn, Int64.ofNat_mul]

/-- **A cache's line says what it says**, whatever lines come behind it. -/
theorem slabEntry_row (row : SlabRow) {rest : Bytes} (hrest : ∀ c ∈ rest.head?, c = 0x0a) :
    slabEntry (row.line ++ rest) = some row.info := by
  have hline : row.line ++ rest = row.name.bytes ++ (row.activeObjs.text ++
      (row.numObjs.text ++ (row.objSize.text ++ (row.rest ++ rest)))) := by
    simp only [SlabRow.line, List.append_assoc]
  set numbers := row.activeObjs.text ++
    (row.numObjs.text ++ (row.objSize.text ++ (row.rest ++ rest))) with hnumbers
  have hspace : numbers.head? = some 0x20 := rfl
  have hmark : ¬ (CStr.lit "slabinfo").bytes <+: row.name.bytes ++ numbers := by
    rw [prefix_append_iff fun c hc => ?_]
    · exact row.name_notMarked
    · rw [hspace] at hc
      rw [← Option.some.inj hc]
      decide
  have hcomment : (row.name.bytes ++ numbers).head? ≠ some 0x23 := by
    rw [List.head?_append_of_ne_nil _ row.name.ne_nil]
    exact row.name_notComment
  have hword : Stops isWordChar numbers := row.activeObjs.stops_text (by decide) _
  have hname : (Directive.string 63).scan (row.name.bytes ++ numbers) =
      some ([.text row.name.bytes], numbers) :=
    scan_string no_gap row.name (fun c hc => hc) row.name_length hword
  have hend : Stops Json.isDigit (row.rest ++ rest) :=
    stops_append row.rest_stops (stops_of_newline (by decide) hrest)
  have hscan : sscanf slabFormat (row.name.bytes ++ numbers) = [
      .text row.name.bytes,
      .signed (.ofNat (Json.natValue row.activeObjs.digits.bytes)),
      .signed (.ofNat (Json.natValue row.numObjs.digits.bytes)),
      .signed (.ofNat (Json.natValue row.objSize.digits.bytes))] := by
    rw [slabFormat, sscanf_cons hname, hnumbers, List.singleton_append]
    simp only [Column.text, List.append_assoc]
    rw [sscanf_signed (spaces_isspace _) _ row.activeObjs.digits (stops_spaces (by decide) _ _)
        (by have := row.activeObjs_lt; omega),
      sscanf_signed (spaces_isspace _) _ row.numObjs.digits (stops_spaces (by decide) _ _)
        (by have := row.numObjs_lt; omega),
      sscanf_signed (spaces_isspace _) _ row.objSize.digits hend
        (by have := row.objSize_lt; omega)]
    rfl
  have hstored : cstr (row.name.bytes ++ [0]) = ⟨row.name.bytes, row.name_nulFree⟩ :=
    CStr.cstr_terminated ⟨_, row.name_nulFree⟩
  rw [slabEntry, slabLine, hline, if_neg (not_or.2 ⟨hmark, hcomment⟩), hscan]
  simp only [List.nil_append, List.head?_cons, size_eq row.numObjs_lt row.objSize_lt,
    Int64.toInt32_ofNat', hstored, SlabRow.info]

theorem SlabRow.not_mem_line (row : SlabRow) {c : UInt8} (hspace : c ≠ 0x20)
    (hdigit : Json.isDigit c = false) (hname : c ∉ row.name.bytes) (hrest : c ∉ row.rest) :
    c ∉ row.line := by
  simp only [SlabRow.line, List.mem_append, hname, Column.not_mem_text _ hspace hdigit, hrest,
    or_self, not_false_eq_true]

namespace SlabLine

theorem text_noNewline (l : SlabLine) : 0x0a ∉ l.text := by
  cases l with
  | header text marked noNewline nulFree => exact noNewline
  | cache row =>
    exact row.not_mem_line (by decide) (by decide) (row.name.not_mem (by decide))
      row.rest_noNewline

theorem text_nulFree (l : SlabLine) : 0 ∉ l.text := by
  cases l with
  | header text marked noNewline nulFree => exact nulFree
  | cache row =>
    exact row.not_mem_line (by decide) (by decide) row.name_nulFree row.rest_nulFree

theorem text_ne_nil (l : SlabLine) : l.text ≠ [] := by
  cases l with
  | header text marked noNewline nulFree =>
    rintro rfl
    rcases marked with hmark | hcomment
    · exact absurd (List.prefix_nil.1 hmark) (by decide)
    · cases hcomment
  | cache row => exact List.append_ne_nil_of_left_ne_nil row.name.ne_nil _

theorem entry_text (l : SlabLine) {rest : Bytes} (hrest : ∀ c ∈ rest.head?, c = 0x0a) :
    slabEntry (l.text ++ rest) = l.row.map SlabRow.info := by
  cases l with
  | header text marked noNewline nulFree => exact slabEntry_header marked rest
  | cache row => exact slabEntry_row row hrest

end SlabLine

/-! ## The table -/

theorem slabText_nulFree (ended : Bool) (lines : List SlabLine) : 0 ∉ slabText ended lines := by
  refine zero_not_mem_unlines fun line hline => ?_
  obtain ⟨l, -, rfl⟩ := List.mem_map.1 hline
  exact l.text_nulFree

/-- The loop takes the caches there is room for. -/
theorem slabLoop_entries (starts : List Bytes) :
    slabLoop starts [] = (starts.filterMap slabEntry).take maxSlabs :=
  entries_of_loop (fun slabs => slabs) (fun _ => rfl) (fun _ _ _ => rfl) slabLine_entry starts []

/-- The caches of a table. -/
def slabInfos (lines : List SlabLine) : List SlabCacheInfo :=
  ((lines.filterMap SlabLine.row).take maxSlabs).map SlabRow.info

theorem parseSlabinfo_table (lines : List SlabLine) (ended : Bool) {reads : List ReadResult}
    (hreads : ReadsAll reads (slabText ended lines))
    (hlen : (slabText ended lines).length < 65536) (buf : Bytes) :
    parseSlabinfo (some reads) buf = some (slabInfos lines) := by
  have hfits : (⟨slabText ended lines, slabText_nulFree ended lines⟩ : CStr).length < 65536 := hlen
  obtain ⟨got, hread, htext⟩ := procReadFile_whole hreads buf hfits
  have hloop : slabLoop (lineStarts (slabText ended lines)) [] = slabInfos lines := by
    rw [slabLoop_entries, slabText, filterMap_lineStarts (fun l _ => l.text_noNewline)
      (fun l _ => l.text_ne_nil) (fun l _ rest hrest => l.entry_text hrest), slabInfos,
      List.map_take, List.map_filterMap]
  rw [parseSlabinfo, hread]
  simp only [htext, hloop]

/-! ## The caches that are handed out -/

/-- The sample of the last file that could be read; there are no caches before. -/
def lastSample (files : List (ProcFile × Bytes)) : List SlabCacheInfo :=
  (Attempts.last (fun read => parseSlabinfo read.1 read.2) files).getD []

theorem lastSample_concat (files : List (ProcFile × Bytes)) (read : ProcFile × Bytes) :
    lastSample (files ++ [read]) =
      (parseSlabinfo read.1 read.2).getD (lastSample files) := by
  simp only [lastSample, Attempts.last, List.filterMap_append, List.filterMap_cons,
    List.filterMap_nil]
  cases parseSlabinfo read.1 read.2 with
  | none => rw [List.append_nil, Option.getD_none]
  | some sample => rw [List.getLast?_concat, Option.getD_some, Option.getD_some]

theorem lastSample_parsed (files : List (ProcFile × Bytes)) :
    ∀ slab ∈ lastSample files, slab.Parsed := by
  rw [lastSample]
  cases hlast : Attempts.last (fun read => parseSlabinfo read.1 read.2) files with
  | none => exact fun slab hslab => absurd hslab List.not_mem_nil
  | some sample =>
    obtain ⟨read, -, hread⟩ := Attempts.exists_of_last hlast
    exact parseSlabinfo_parsed hread

/-- It is what a run leaves. -/
theorem slabinfoRun_current (qsort : Qsort) (files : List (ProcFile × Bytes)) :
    (slabinfoRun qsort files).current = lastSample files := by
  induction files using List.reverseRecOn with
  | nil => rfl
  | append_singleton files read ih =>
    rw [slabinfoRun, Run.state_append, ← slabinfoRun]
    rw [lastSample_concat, ← ih]
    cases hread : parseSlabinfo read.1 read.2 with
    | none => simp [slabinfoCollect, hread]
    | some sample => exact (slabinfoCollect_samples qsort hread).1

/-- What is listed of the caches. -/
theorem consumers_compared {priv : SlabinfoPriv} (hprevious : priv.hasPrevious = true)
    (hold : ∀ slab ∈ priv.previous, slab.Parsed) {slabs : List SlabCacheInfo}
    (hslabs : ∀ slab ∈ slabs, slab.Parsed) :
    List.Forall₂ (SlabCompared priv.previous) (slabs.filter fun slab => slab.sizeBytes ≠ 0)
      (slabs.filterMap (consumer priv)) := by
  induction slabs with
  | nil => exact List.Forall₂.nil
  | cons cur slabs ih =>
    obtain ⟨hcur, hrest⟩ := List.forall_mem_cons.1 hslabs
    by_cases hsize : cur.sizeBytes = 0
    · have hnone : consumer priv cur = none := if_pos hsize
      rw [List.filter_cons_of_neg (by simpa using hsize), List.filterMap_cons_none hnone]
      exact ih hrest
    · obtain ⟨e, he⟩ : ∃ e, consumer priv cur = some e := ⟨_, if_neg hsize⟩
      rw [List.filter_cons_of_pos (by simpa using hsize), List.filterMap_cons_some he]
      exact List.Forall₂.cons (consumer_compared hprevious hold hcur he) (ih hrest)

/-- **What slabinfo makes of a table**, whatever was collected before: it has the caches of the
first 512 rows, and hands out the largest of them, those without a page left out, each compared
with the cache of its name in the last table that could be read. -/
theorem slabinfo_table (qsort : Qsort) (before : List (ProcFile × Bytes)) (lines : List SlabLine)
    (ended : Bool) (reads : List ReadResult) (hreads : ReadsAll reads (slabText ended lines))
    (hlen : (slabText ended lines).length < 65536) (buf : Bytes) (maxEntries : Nat) :
    let priv := slabinfoRun qsort (before ++ [(some reads, buf)])
    priv.current = slabInfos lines ∧
      ∃ entries, List.Forall₂ (SlabCompared (lastSample before))
          ((slabInfos lines).filter fun slab => slab.sizeBytes ≠ 0) entries ∧
        Ranking (fun e => e.sizeBytes.toInt) maxEntries entries
          (slabinfoGetTopConsumers qsort priv maxEntries) := by
  intro priv
  have hparse := parseSlabinfo_table lines ended hreads hlen buf
  have hpriv : priv = (slabinfoCollect qsort (slabinfoRun qsort before) (some reads) buf).1 := by
    simp only [priv, slabinfoRun, Run.state_append, Run.state_cons, Run.state_nil]
  have hsamples : priv.current = slabInfos lines ∧
      priv.previous = (slabinfoRun qsort before).current ∧ priv.hasPrevious = true :=
    hpriv ▸ slabinfoCollect_samples qsort hparse
  obtain ⟨hcurrent, hprevious, hseen⟩ := hsamples
  rw [slabinfoRun_current] at hprevious
  have hold : ∀ slab ∈ priv.previous, slab.Parsed := by
    rw [hprevious]
    exact lastSample_parsed before
  have hcompared := consumers_compared hseen hold (parseSlabinfo_parsed hparse)
  rw [hprevious] at hcompared
  refine ⟨hcurrent, _, hcompared, ?_⟩
  rw [slabinfoGetTopConsumers, hcurrent, compareConsumers, compareDescending_int64]
  have hsorted := (qsort.sorted _ ((slabInfos lines).filterMap (consumer priv))
    (orders_compareDescending fun e : SlabEntry => e.sizeBytes.toInt)).imp
      (compareDescending_le_zero _).1
  exact Ranking.of_sorted (qsort.perm _ _) hsorted maxEntries

/-- A number of seven digits or less, behind three spaces. -/
def numberColumn (digits : Token Json.isDigit) : Column := ⟨2, digits⟩

def dentryRow : SlabRow where
  name := ⟨(CStr.lit "dentry").bytes, by decide, by decide⟩
  activeObjs := numberColumn (natToken 40)
  numObjs := numberColumn (natToken 42)
  objSize := numberColumn (natToken 192)
  rest := (CStr.lit "   42    1 : tunables    0    0    0").bytes
  name_length := by decide
  name_nulFree := by decide
  name_notMarked := by decide
  name_notComment := by decide
  activeObjs_lt := by decide
  numObjs_lt := by decide
  objSize_lt := by decide
  rest_stops := stops_cons (by decide) _
  rest_noNewline := by decide
  rest_nulFree := by decide

/-- A header line and one cache. -/
def dentryTable : List SlabLine := [
  .header (CStr.lit "slabinfo - version: 2.1").bytes (.inl (by decide)) (by decide) (by decide),
  .cache dentryRow]

theorem slabinfo_table_dentry :
    let reads := [ReadResult.data (slabText true dentryTable)]
    let priv := slabinfoRun .merge ([(none, [])] ++ [(some reads, [])])
    priv.current = slabInfos dentryTable ∧
      ∃ entries, List.Forall₂ (SlabCompared (lastSample [(none, [])]))
          ((slabInfos dentryTable).filter fun slab => slab.sizeBytes ≠ 0) entries ∧
        Ranking (fun e => e.sizeBytes.toInt) 5 entries
          (slabinfoGetTopConsumers .merge priv 5) :=
  slabinfo_table .merge [(none, [])] dentryTable true _ (.single (by decide)) (by decide) [] 5

end Slabinfo

end Qmem
