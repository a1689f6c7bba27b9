import Qmem.Lib.Assign
import Qmem.Lib.Attempts
import Qmem.Lib.Table
import Qmem.ProcContents
import Qmem.Services.Vmstat

/-!
# What vmstat reads of a text

Every line is a key and a number. The counters keep the number of the last line with their key;
only `nr_vmalloc` is never set, since no line has it under a name the parser looks for.

Main result: `vmstat_rows`.
-/

namespace Qmem

open CLib

namespace Vmstat

/-- A counter that is read. -/
abbrev VmstatCounter := Assign.Field CStr VmstatData Int64

def vmstatCounters : List VmstatCounter := [
  ⟨.lit "nr_slab_unreclaimable", (·.nrSlabUnreclaimable), ({ · with nrSlabUnreclaimable := · })⟩,
  ⟨.lit "nr_slab_reclaimable", (·.nrSlabReclaimable), ({ · with nrSlabReclaimable := · })⟩,
  ⟨.lit "nr_kernel_stack", (·.nrKernelStack), ({ · with nrKernelStack := · })⟩,
  ⟨.lit "nr_page_table_pages", (·.nrPageTablePages), ({ · with nrPageTablePages := · })⟩,
  ⟨.lit "nr_dirty", (·.nrDirty), ({ · with nrDirty := · })⟩,
  ⟨.lit "nr_writeback", (·.nrWriteback), ({ · with nrWriteback := · })⟩]

theorem nodup_keys : (vmstatCounters.map Assign.Field.key).Nodup := by decide +kernel

theorem get_same : ∀ c ∈ vmstatCounters, ∀ data value, c.get (c.set data value) = value := by
  simp only [vmstatCounters, List.forall_mem_cons, List.not_mem_nil, false_imp_iff, implies_true,
    and_self]

theorem get_other : ∀ c ∈ vmstatCounters, ∀ c' ∈ vmstatCounters, c.key ≠ c'.key →
    ∀ data value, c.get (c'.set data value) = c.get data := by
  simp only [vmstatCounters, List.forall_mem_cons, List.not_mem_nil, false_imp_iff, implies_true,
    and_true, ne_eq, not_true]

/-- The chain of comparisons is a search. The empty branch is for none of the counters. -/
theorem set_eq (data : VmstatData) (key : CStr) (value : Int64) :
    data.set key value =
      (vmstatCounters.find? fun c => key = c.key).elim data fun c => c.set data value := by
  by_cases hempty : key = .lit "nr_vmscan_write"
  · have hnone : vmstatCounters.find? (fun c => key = c.key) = none := by
      rw [hempty]
      decide +kernel
    rw [hnone, VmstatData.set, if_neg (by rw [hempty]; decide +kernel),
      if_neg (by rw [hempty]; decide +kernel), if_pos hempty]
    rfl
  · rw [VmstatData.set, if_neg hempty, vmstatCounters]
    simp only [Assign.elim_find?_cons]
    rfl

/-! ## The lines -/

/-- A line of /proc/vmstat, without its newline: a key, a number, and whatever comes behind. -/
structure VmstatRow where
  key : Token isWordChar
  number : Column
  rest : Bytes
  key_length : key.bytes.length ≤ 63
  key_nulFree : 0 ∉ key.bytes
  fits : Json.natValue number.digits.bytes < 2 ^ 63
  rest_stops : Stops Json.isDigit rest
  rest_noNewline : 0x0a ∉ rest
  rest_nulFree : 0 ∉ rest

namespace VmstatRow

def line (row : VmstatRow) : Bytes := row.key.bytes ++ (row.number.text ++ row.rest)

def value (row : VmstatRow) : Nat := Json.natValue row.number.digits.bytes

def name (row : VmstatRow) : CStr := ⟨row.key.bytes, row.key_nulFree⟩

theorem not_mem_line (row : VmstatRow) {c : UInt8} (hspace : c ≠ 0x20)
    (hdigit : Json.isDigit c = false) (hkey : c ∉ row.key.bytes) (hrest : c ∉ row.rest) :
    c ∉ row.line := by
  simp only [line, List.mem_append, hkey, row.number.not_mem_text hspace hdigit, hrest, or_self,
    not_false_eq_true]

theorem line_noNewline (row : VmstatRow) : 0x0a ∉ row.line :=
  row.not_mem_line (by decide) (by decide) (row.key.not_mem (by decide)) row.rest_noNewline

theorem line_nulFree (row : VmstatRow) : 0 ∉ row.line :=
  row.not_mem_line (by decide) (by decide) row.key_nulFree row.rest_nulFree

theorem line_ne_nil (row : VmstatRow) : row.line ≠ [] :=
  List.append_ne_nil_of_left_ne_nil row.key.ne_nil _

end VmstatRow

/-- The number on the last line with the key, or 0. -/
def lastValue (key : CStr) (rows : List VmstatRow) : Nat :=
  Assign.last (fun row => if row.name = key then some row.value else none) rows 0

/-- The key and the number that `sscanf` finds. -/
def vmstatField (line : Bytes) : Option (CStr × Int64) :=
  match sscanf vmstatFormat line with
  | [.text key, .signed value] => some (cstr (key ++ [0]), value)
  | _ => none

theorem vmstatLine_eq (data : VmstatData) (line : Bytes) :
    vmstatLine data line = (vmstatField line).elim data fun field => data.set field.1 field.2 := by
  rw [vmstatField]
  split
  · case h_1 hscan =>
    rw [vmstatLine, hscan]
    rfl
  · case h_2 hno =>
    rw [vmstatLine]
    split
    · case h_1 hscan => exact (hno _ _ hscan).elim
    · rfl

/-- **A line says what it says**, whatever lines come behind it. -/
theorem vmstatField_row (row : VmstatRow) {rest : Bytes} (hrest : ∀ c ∈ rest.head?, c = 0x0a) :
    vmstatField (row.line ++ rest) = some (row.name, .ofNat row.value) := by
  have hword : Stops isWordChar (row.number.text ++ (row.rest ++ rest)) :=
    row.number.stops_text (by decide) _
  have hkey : (Directive.string 63).scan
      ([] ++ (row.key.bytes ++ (row.number.text ++ (row.rest ++ rest)))) =
        some ([.text row.key.bytes], row.number.text ++ (row.rest ++ rest)) :=
    scan_string no_gap row.key (fun c hc => hc) row.key_length hword
  have hend : Stops Json.isDigit (row.rest ++ rest) :=
    stops_append row.rest_stops (stops_of_newline (by decide) hrest)
  have hname : cstr (row.key.bytes ++ [0]) = row.name := CStr.cstr_terminated row.name
  rw [List.nil_append] at hkey
  rw [vmstatField, VmstatRow.line, List.append_assoc, List.append_assoc, vmstatFormat,
    sscanf_cons hkey, Column.text, List.append_assoc,
    sscanf_signed (spaces_isspace _) _ row.number.digits hend row.fits, sscanf]
  simp only [List.singleton_append, hname, VmstatRow.value]

/-! ## The text -/

/-- The contents of the file; only the last line may have no newline. -/
def vmstatText (ended : Bool) (rows : List VmstatRow) : Bytes :=
  unlines ended (rows.map VmstatRow.line)

theorem vmstatText_nulFree (ended : Bool) (rows : List VmstatRow) : 0 ∉ vmstatText ended rows := by
  refine zero_not_mem_unlines fun line hline => ?_
  obtain ⟨row, -, rfl⟩ := List.mem_map.1 hline
  exact row.line_nulFree

/-- What a line gives a counter. -/
def assigned (c : VmstatCounter) (line : Bytes) : Option Int64 :=
  (vmstatField line).bind fun field => if field.1 = c.key then some field.2 else none

theorem get_vmstatLine {c : VmstatCounter} (hc : c ∈ vmstatCounters) (data : VmstatData)
    (line : Bytes) : c.get (vmstatLine data line) = (assigned c line).getD (c.get data) := by
  rw [vmstatLine_eq, assigned]
  cases vmstatField line with
  | none => rfl
  | some field =>
    obtain ⟨key, value⟩ := field
    rw [Option.elim_some, set_eq, Assign.get_set nodup_keys get_same get_other hc, Option.bind_some]
    by_cases hkey : key = c.key
    · rw [if_pos hkey, if_pos hkey, Option.getD_some]
    · rw [if_neg hkey, if_neg hkey, Option.getD_none]

/-- Nothing sets `nrVmalloc`. -/
theorem nrVmalloc_set (data : VmstatData) (key : CStr) (value : Int64) :
    (data.set key value).nrVmalloc = data.nrVmalloc := by
  rw [VmstatData.set]
  split_ifs <;> rfl

theorem nrVmalloc_lines (lines : List Bytes) (data : VmstatData) :
    (lines.foldl vmstatLine data).nrVmalloc = data.nrVmalloc := by
  induction lines generalizing data with
  | nil => rfl
  | cons line lines ih =>
    rw [List.foldl_cons, ih, vmstatLine_eq]
    cases vmstatField line with
    | none => rfl
    | some field => exact nrVmalloc_set data field.1 field.2

/-- The counters have the numbers of the last lines with their keys. -/
structure Shows (rows : List VmstatRow) (data : VmstatData) : Prop where
  counters : ∀ c ∈ vmstatCounters, (c.get data).toInt = lastValue c.key rows
  nrVmalloc : data.nrVmalloc = 0

theorem last_rows (c : VmstatCounter) (ended : Bool) (rows : List VmstatRow) :
    Assign.last (assigned c) (lineStarts (vmstatText ended rows)) 0 =
      .ofNat (lastValue c.key rows) := by
  have hline (row : VmstatRow) (rest : Bytes) (hrest : ∀ c ∈ rest.head?, c = (0x0a : UInt8)) :
      assigned c (row.line ++ rest) =
        (if row.name = c.key then some row.value else none).map Int64.ofNat := by
    rw [assigned, vmstatField_row row hrest, Option.bind_some]
    by_cases hkey : row.name = c.key
    · rw [if_pos hkey, if_pos hkey, Option.map_some]
    · rw [if_neg hkey, if_neg hkey, Option.map_none]
  have hfound := filterMap_lineStarts (fun row (_ : row ∈ rows) => row.line_noNewline)
    (fun row _ => row.line_ne_nil) (fun row _ => hline row) ended
  rw [Assign.last, vmstatText, hfound]
  exact Assign.last_map Int64.ofNat rows 0

theorem lastValue_lt (key : CStr) (rows : List VmstatRow) : lastValue key rows < 2 ^ 63 := by
  refine Assign.last_of_forall (P := fun n => n < 2 ^ 63) (by decide) fun row _ value hvalue => ?_
  rw [Option.ite_none_right_eq_some] at hvalue
  rw [← Option.some.inj hvalue.2]
  exact row.fits

theorem parseVmstat_rows {rows : List VmstatRow} {ended : Bool} {reads : List ReadResult}
    (hreads : ReadsAll reads (vmstatText ended rows))
    (hlen : (vmstatText ended rows).length < 32768) (buf : Bytes) :
    ∃ data, parseVmstat (some reads) buf = some data ∧ Shows rows data := by
  have hfits : (⟨vmstatText ended rows, vmstatText_nulFree ended rows⟩ : CStr).length < 32768 :=
    hlen
  obtain ⟨got, hread, htext⟩ := procReadFile_whole hreads buf hfits
  refine ⟨(lineStarts (vmstatText ended rows)).foldl vmstatLine zeroData, ?_, ?_, ?_⟩
  · rw [parseVmstat, hread]
    simp only [htext]
  · intro c hc
    have hzero : ∀ c ∈ vmstatCounters, c.get zeroData = 0 := by
      simp only [vmstatCounters, List.forall_mem_cons, List.not_mem_nil, false_imp_iff,
        implies_true, zeroData, and_self]
    rw [Assign.get_foldl (get_vmstatLine hc), hzero c hc, last_rows,
      Int64.toInt_ofNat_of_lt (lastValue_lt c.key rows)]
  · exact nrVmalloc_lines _ zeroData

/-- The service after it has collected these files, each with what the array held before. -/
def vmstatRun (files : List (ProcFile × Bytes)) : VmstatData :=
  Run.state (fun data read => (vmstatCollect read.1 read.2 data).1) vmstatInit files

/-- A row with a blank after its number. -/
def dirtyRow (number : Nat) (h : Json.natValue (natToken number).bytes < 2 ^ 63 := by decide) :
    VmstatRow where
  key := ⟨(CStr.lit "nr_dirty").bytes, by decide, by decide⟩
  number := ⟨0, natToken number⟩
  rest := [0x20]
  key_length := by decide
  key_nulFree := by decide
  fits := h
  rest_stops := stops_cons (by decide) []
  rest_noNewline := by decide
  rest_nulFree := by decide

end Vmstat

end Qmem
