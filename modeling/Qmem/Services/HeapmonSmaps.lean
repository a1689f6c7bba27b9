import Qmem.Lib.Lines
import Qmem.Lib.Scan
import Qmem.Lib.Scanf
import Qmem.ProcContents
import Qmem.Services.Heapmon

/-!
# The heap mappings of a process

`/proc/<pid>/smaps` is a list of mappings, each an address line with its fields behind it. The
search for `[heap]` in an address line does not end with the line, so every mapping that comes
before one with that name is taken for a heap as well.

Main result: `heap_smaps_right_iff`.
-/

namespace Qmem

open CLib

namespace Heapmon

/-! ## Mappings -/

/-- The fields that are summed up. -/
inductive FieldName where
  | size
  | rss
  | privateDirty
deriving DecidableEq

def FieldName.text : FieldName → Bytes
  | .size => (CStr.lit "Size:").bytes
  | .rss => (CStr.lit "Rss:").bytes
  | .privateDirty => (CStr.lit "Private_Dirty:").bytes

/-- Any other line behind an address line. -/
structure OtherLine where
  bytes : Bytes
  noNewline : 0x0a ∉ bytes
  nulFree : 0 ∉ bytes
  noAddress : startsMapping (bytes.headD 0) = false
  noField : ∀ name : FieldName, ¬ name.text <+: bytes

inductive FieldLine where
  | kb (name : FieldName) (gap value : Nat)
  | other (line : OtherLine)

def FieldLine.bytes : FieldLine → Bytes
  | .kb name gap value =>
    name.text ++ (List.replicate gap 0x20 ++ (decNat value ++ (CStr.lit " kB").bytes))
  | .other line => line.bytes

structure Mapping where
  address : Bytes
  fields : List FieldLine
  noNewline : 0x0a ∉ address
  nulFree : 0 ∉ address
  starts : startsMapping (address.headD 0) = true

def Mapping.lines (m : Mapping) : List Bytes := m.address :: m.fields.map FieldLine.bytes

/-- The contents of the file. -/
def linesText (lines : List Bytes) : Bytes := lines.flatMap fun line => line ++ [0x0a]

def smapsText (ms : List Mapping) : Bytes := linesText (ms.flatMap Mapping.lines)

def FieldLine.value (name : FieldName) : FieldLine → Nat
  | .kb n _ value => if n = name then value else 0
  | .other _ => 0

/-- What the fields of a mapping with this name add up to. -/
def Mapping.total (name : FieldName) (m : Mapping) : Nat := (m.fields.map (FieldLine.value name)).sum

/-- The name of a heap. -/
def heapTag : Bytes := (CStr.lit "[heap]").bytes

/-- The address line carries the name. -/
def Mapping.IsHeap (m : Mapping) : Prop := heapTag <:+: m.address

instance (m : Mapping) : Decidable m.IsHeap := inferInstanceAs (Decidable (_ <:+: _))

/-- Some line of these mappings does. -/
def Named (ms : List Mapping) : Prop := ∃ line ∈ ms.flatMap Mapping.lines, heapTag <:+: line

instance (ms : List Mapping) : Decidable (Named ms) := inferInstanceAs (Decidable (∃ _ ∈ _, _))

def SmapsSums.get (s : SmapsSums) : FieldName → Int64
  | .size => s.sizeKb
  | .rss => s.rssKb
  | .privateDirty => s.pdKb

/-- What is returned are the sums over the heap mappings. -/
def SumsRight (ms : List Mapping) (s : SmapsSums) : Prop :=
  ∀ name, (s.get name).toInt = ((ms.filter fun m => m.IsHeap).map (Mapping.total name)).sum

/-! ## Lines -/

theorem linesText_cons (line : Bytes) (lines : List Bytes) :
    linesText (line :: lines) = line ++ 0x0a :: linesText lines := by
  simp [linesText]

theorem FieldName.noNewline (name : FieldName) : 0x0a ∉ name.text := by
  cases name <;> decide

theorem FieldName.noAddress (name : FieldName) (s : Bytes) :
    startsMapping ((name.text ++ s).headD 0) = false := by
  cases name <;> rfl

/-- The field names tell the lines apart. -/
theorem FieldName.prefix_iff (name other : FieldName) (s : Bytes) :
    other.text <+: name.text ++ s ↔ other = name := by
  constructor
  · intro h
    have hor := List.prefix_or_prefix_of_prefix h (List.prefix_append name.text s)
    revert hor
    cases name <;> cases other <;> decide
  · rintro rfl
    exact List.prefix_append _ _

theorem kb_noNewline (gap value : Nat) :
    0x0a ∉ List.replicate gap (0x20 : UInt8) ++ (decNat value ++ (CStr.lit " kB").bytes) := by
  have hdigits : (0x0a : UInt8) ∉ decNat value := fun h =>
    absurd (Json.decNat_all_digit value _ h) (by decide)
  have hunit : (0x0a : UInt8) ∉ (CStr.lit " kB").bytes := by decide
  simp [hdigits, hunit]

theorem FieldLine.noNewline (f : FieldLine) : 0x0a ∉ f.bytes := by
  cases f with
  | kb name gap value =>
    rw [FieldLine.bytes, List.mem_append, not_or]
    exact ⟨name.noNewline, kb_noNewline gap value⟩
  | other line => exact line.noNewline

theorem FieldLine.nulFree (f : FieldLine) : 0 ∉ f.bytes := by
  cases f with
  | kb name gap value =>
    have hname : (0 : UInt8) ∉ name.text := by cases name <;> decide
    have hdigits : (0 : UInt8) ∉ decNat value := fun h =>
      absurd (Json.decNat_all_digit value _ h) (by decide)
    have hunit : (0 : UInt8) ∉ (CStr.lit " kB").bytes := by decide
    simp [FieldLine.bytes, hname, hdigits, hunit]
  | other line => exact line.nulFree

theorem smapsText_nulFree (ms : List Mapping) : 0 ∉ smapsText ms := by
  intro hmem
  obtain ⟨line, hline, hzero⟩ := List.mem_flatMap.1 hmem
  obtain ⟨m, -, hline⟩ := List.mem_flatMap.1 hline
  rcases List.mem_append.1 hzero with hzero | hzero
  · rcases List.mem_cons.1 hline with rfl | hline
    · exact m.nulFree hzero
    · obtain ⟨f, -, rfl⟩ := List.mem_map.1 hline
      exact f.nulFree hzero
  · exact absurd hzero (by decide)

/-- The search for the name finds it in any later line. -/
theorem heapTag_infix_iff (lines : List Bytes) :
    heapTag <:+: linesText lines ↔ ∃ line ∈ lines, heapTag <:+: line := by
  induction lines with
  | nil => simp [linesText, heapTag, show (CStr.lit "[heap]").bytes ≠ [] by decide]
  | cons line lines ih =>
    rw [linesText_cons, infix_line_iff (by decide) (by decide), ih, List.exists_mem_cons_iff]

/-! ## What a line does -/

/-- An address line. -/
theorem smapsLine_address (s : SmapsSums) (m : Mapping) (rest : Bytes) :
    smapsLine s (m.address ++ 0x0a :: rest) =
      { s with inHeap := decide (heapTag <:+: m.address ++ 0x0a :: rest) } := by
  obtain ⟨c, address, haddr⟩ : ∃ c address, m.address = c :: address := by
    cases haddr : m.address with
    | nil =>
      have hstarts := m.starts
      rw [haddr] at hstarts
      exact absurd hstarts (by decide)
    | cons c address => exact ⟨c, address, rfl⟩
  have hstarts : startsMapping c = true := by
    have hstarts := m.starts
    rwa [haddr] at hstarts
  have hfield (name : FieldName) : ¬ name.text <+: c :: (address ++ 0x0a :: rest) := by
    rintro ⟨more, hmore⟩
    have hno := name.noAddress more
    rw [hmore, List.headD_cons, hstarts] at hno
    exact absurd hno (by decide)
  have htag : (strstr (c :: (address ++ 0x0a :: rest)) (CStr.lit "[heap]").bytes).isSome =
      decide (heapTag <:+: c :: (address ++ 0x0a :: rest)) := by
    rw [Bool.eq_iff_iff, strstr_isSome_iff, decide_eq_true_eq]
    rfl
  simp only [haddr, List.cons_append, smapsLine, List.headD_cons, hstarts, if_true, htag]
  have hsize := hfield .size
  have hrss := hfield .rss
  have hdirty := hfield .privateDirty
  simp only [FieldName.text] at hsize hrss hdirty
  simp only [hsize, hrss, hdirty, if_false, ite_self]

/-- The value of a field is read. -/
theorem strtoll_kb (gap : Nat) {value : Nat} (hvalue : value < 2 ^ 63) (rest : Bytes) :
    strtoll (List.replicate gap 0x20 ++ (decNat value ++ (CStr.lit " kB").bytes) ++ rest) =
      .ofNat value := by
  have hgap : ∀ c ∈ List.replicate gap (0x20 : UInt8), isspace c = true := by
    intro c hc
    rw [List.eq_of_mem_replicate hc]
    rfl
  have hstops : Stops Json.isDigit ((CStr.lit " kB").bytes ++ rest) := by
    intro c hc
    rw [← Option.some.inj hc]
    rfl
  have hread := strtoll_digits ⟨decNat value, decNat_ne_nil value, Json.decNat_all_digit value⟩ hstops
  rw [Json.natValue_decNat, show max (-2 ^ 63) (min (2 ^ 63 - 1) (value : Int)) = value by omega]
    at hread
  rw [List.append_assoc, List.append_assoc, strtoll_skip hgap]
  exact hread

def SmapsSums.add (s : SmapsSums) (kb : Int64) : FieldName → SmapsSums
  | .size => { s with sizeKb := s.sizeKb + kb }
  | .rss => { s with rssKb := s.rssKb + kb }
  | .privateDirty => { s with pdKb := s.pdKb + kb }

@[simp] theorem SmapsSums.add_inHeap (s : SmapsSums) (kb : Int64) (name : FieldName) :
    (s.add kb name).inHeap = s.inHeap := by
  cases name <;> rfl

theorem SmapsSums.add_get (s : SmapsSums) (kb : Int64) (name other : FieldName) :
    (s.add kb name).get other = s.get other + if name = other then kb else 0 := by
  cases name <;> cases other <;> simp [SmapsSums.add, SmapsSums.get]

/-- A line with one of the three fields. -/
theorem smapsLine_name (s : SmapsSums) (name : FieldName) (number : Bytes) :
    smapsLine s (name.text ++ number) = if s.inHeap then s.add (strtoll number) name else s := by
  have hstarts := name.noAddress number
  have hdrop : (name.text ++ number).drop name.text.length = number := List.drop_left
  have hsize := name.prefix_iff .size number
  have hrss := name.prefix_iff .rss number
  have hdirty := name.prefix_iff .privateDirty number
  generalize name.text ++ number = line at hstarts hdrop hsize hrss hdirty
  simp only [FieldName.text] at hsize hrss hdirty
  rw [smapsLine]
  simp only [hstarts, Bool.false_eq_true, if_false, hsize, hrss, hdirty]
  cases name with
  | size => rw [show 5 = FieldName.size.text.length from rfl, hdrop]; rfl
  | rss => rw [show 4 = FieldName.rss.text.length from rfl, hdrop]; rfl
  | privateDirty => rw [show 14 = FieldName.privateDirty.text.length from rfl, hdrop]; rfl

/-- Any other line behind an address line. -/
theorem smapsLine_other (s : SmapsSums) (line : OtherLine) (rest : Bytes) :
    smapsLine s (line.bytes ++ 0x0a :: rest) = s := by
  have hstarts : startsMapping ((line.bytes ++ 0x0a :: rest).headD 0) = false := by
    have hno := line.noAddress
    cases hline : line.bytes with
    | nil => rfl
    | cons c s =>
      rw [hline] at hno
      exact hno
  have hfield (name : FieldName) : ¬ name.text <+: line.bytes ++ 0x0a :: rest := by
    rw [prefix_line_iff name.noNewline]
    exact line.noField name
  have hsize := hfield .size
  have hrss := hfield .rss
  have hdirty := hfield .privateDirty
  simp only [FieldName.text] at hsize hrss hdirty
  simp only [smapsLine, hstarts, Bool.false_eq_true, hsize, hrss, hdirty, if_false, ite_self]

/-- A line behind an address line counts in a heap. -/
theorem smapsLine_field (s : SmapsSums) (f : FieldLine) (hvalue : ∀ name, f.value name < 2 ^ 63)
    (rest : Bytes) :
    (smapsLine s (f.bytes ++ 0x0a :: rest)).inHeap = s.inHeap ∧
      ∀ name, (smapsLine s (f.bytes ++ 0x0a :: rest)).get name =
        s.get name + .ofNat (if s.inHeap then f.value name else 0) := by
  cases f with
  | other line =>
    rw [FieldLine.bytes, smapsLine_other]
    simp [FieldLine.value]
  | kb name gap value =>
    have hlt : value < 2 ^ 63 := by simpa [FieldLine.value] using hvalue name
    rw [FieldLine.bytes, List.append_assoc, smapsLine_name, strtoll_kb gap hlt]
    by_cases hheap : s.inHeap = true
    · refine ⟨by simp [hheap], fun other => ?_⟩
      rw [if_pos hheap, if_pos hheap, SmapsSums.add_get, FieldLine.value]
      by_cases hname : name = other
      · rw [if_pos hname, if_pos hname]
      · rw [if_neg hname, if_neg hname]
        rfl
    · simp [hheap]

/-! ## The whole file -/

theorem lineStarts_linesText {line : Bytes} (h : 0x0a ∉ line) (lines : List Bytes) :
    lineStarts (linesText (line :: lines)) =
      (line ++ 0x0a :: linesText lines) :: lineStarts (linesText lines) := by
  rw [linesText_cons, lineStarts_line h]

/-- The lines behind an address line, all of them. -/
theorem foldl_fields (fs : List FieldLine) (s : SmapsSums)
    (hvalue : ∀ f ∈ fs, ∀ name, f.value name < 2 ^ 63) (lines : List Bytes) :
    ∃ s', (lineStarts (linesText (fs.map FieldLine.bytes ++ lines))).foldl smapsLine s =
        (lineStarts (linesText lines)).foldl smapsLine s' ∧
      s'.inHeap = s.inHeap ∧ ∀ name, s'.get name =
        s.get name + .ofNat (if s.inHeap then (fs.map (FieldLine.value name)).sum else 0) := by
  induction fs generalizing s with
  | nil => exact ⟨s, rfl, rfl, by simp⟩
  | cons f fs ih =>
    obtain ⟨hhere, hlater⟩ := List.forall_mem_cons.1 hvalue
    rw [List.map_cons, List.cons_append, lineStarts_linesText f.noNewline, List.foldl_cons]
    obtain ⟨hheap, hget⟩ := smapsLine_field s f hhere (linesText (fs.map FieldLine.bytes ++ lines))
    obtain ⟨s', hfold, hheap', hget'⟩ := ih _ hlater
    refine ⟨s', hfold, hheap'.trans hheap, fun name => ?_⟩
    rw [hget', hheap, hget, List.map_cons, List.sum_cons]
    cases s.inHeap with
    | false => simp
    | true => rw [if_pos rfl, if_pos rfl, if_pos rfl, Int64.ofNat_add, Int64.add_assoc]

/-- The mappings that are taken for a heap and are none. -/
def mistaken : List Mapping → List Mapping
  | [] => []
  | m :: ms => if ¬ m.IsHeap ∧ Named (m :: ms) then m :: mistaken ms else mistaken ms

theorem mem_mistaken_iff {ms : List Mapping} {m : Mapping} :
    m ∈ mistaken ms ↔
      ∃ before after, ms = before ++ m :: after ∧ ¬ m.IsHeap ∧ Named (m :: after) := by
  induction ms with
  | nil => simp [mistaken]
  | cons n ms ih =>
    have hhere : (∃ before after, n :: ms = before ++ m :: after ∧ ¬ m.IsHeap ∧ Named (m :: after)) ↔
        (m = n ∧ ¬ n.IsHeap ∧ Named (n :: ms)) ∨ m ∈ mistaken ms := by
      rw [ih]
      constructor
      · rintro ⟨before, after, hsplit, hm⟩
        cases before with
        | nil =>
          obtain ⟨rfl, rfl⟩ := List.cons.inj hsplit
          exact Or.inl ⟨rfl, hm⟩
        | cons b before =>
          obtain ⟨rfl, rfl⟩ := List.cons.inj hsplit
          exact Or.inr ⟨before, after, rfl, hm⟩
      · rintro (⟨rfl, hm⟩ | ⟨before, after, rfl, hm⟩)
        · exact ⟨[], ms, rfl, hm⟩
        · exact ⟨n :: before, after, rfl, hm⟩
    rw [hhere, mistaken]
    split
    · case isTrue hn => simp [hn]
    · case isFalse hn => simp [hn]

/-- What the mappings in a list add up to. -/
def totals (name : FieldName) (ms : List Mapping) : Nat := (ms.map (Mapping.total name)).sum

/-- The whole loop: the heaps are summed up, and those that are taken for one. -/
theorem foldl_mappings (ms : List Mapping) (s : SmapsSums)
    (hvalue : ∀ m ∈ ms, ∀ f ∈ m.fields, ∀ name, f.value name < 2 ^ 63) (name : FieldName) :
    ((lineStarts (smapsText ms)).foldl smapsLine s).get name =
      s.get name + .ofNat (totals name (ms.filter fun m => m.IsHeap) + totals name (mistaken ms)) := by
  induction ms generalizing s with
  | nil => simp [smapsText, linesText, lineStarts, lineStartsFrom, totals, mistaken]
  | cons m ms ih =>
    obtain ⟨hhere, hlater⟩ := List.forall_mem_cons.1 hvalue
    have hnamed : heapTag <:+: m.address ++ 0x0a ::
        linesText (m.fields.map FieldLine.bytes ++ ms.flatMap Mapping.lines) ↔ Named (m :: ms) := by
      rw [← linesText_cons, heapTag_infix_iff]
      rfl
    obtain ⟨s', hfold, -, hget⟩ := foldl_fields m.fields
      { s with inHeap := decide (Named (m :: ms)) } hhere (ms.flatMap Mapping.lines)
    rw [smapsText, List.flatMap_cons, Mapping.lines, List.cons_append,
      lineStarts_linesText m.noNewline, List.foldl_cons, smapsLine_address]
    simp only [hnamed]
    have hrest := ih s' hlater
    rw [smapsText] at hrest
    rw [hfold, hrest, hget]
    have hsame : SmapsSums.get { s with inHeap := decide (Named (m :: ms)) } name = s.get name := by
      cases name <;> rfl
    rw [hsame, Int64.add_assoc, ← Int64.ofNat_add]
    congr 2
    by_cases hheap : m.IsHeap
    · have hname : Named (m :: ms) := ⟨m.address, by simp [Mapping.lines], hheap⟩
      simp [hname, hheap, totals, mistaken, Mapping.total]
      omega
    · by_cases hname : Named (m :: ms)
      · simp [hname, hheap, totals, mistaken, Mapping.total]
        omega
      · simp [hname, hheap, totals, mistaken]

theorem totals_le (name : FieldName) (ms : List Mapping) :
    totals name (ms.filter fun m => m.IsHeap) + totals name (mistaken ms) ≤ totals name ms := by
  induction ms with
  | nil => exact Nat.le_refl 0
  | cons m ms ih =>
    simp only [totals] at ih ⊢
    rw [mistaken]
    by_cases hheap : m.IsHeap
    · rw [List.filter_cons_of_pos (by simpa using hheap), if_neg fun h => h.1 hheap]
      simp only [List.map_cons, List.sum_cons]
      omega
    · rw [List.filter_cons_of_neg (by simpa using hheap)]
      split
      · simp only [List.map_cons, List.sum_cons]
        omega
      · simp only [List.map_cons, List.sum_cons]
        omega

/-- The counters of one address space: what they add up to can be counted. -/
structure Smaps where
  mappings : List Mapping
  fits : ∀ name, totals name mappings < 2 ^ 63

theorem Smaps.value_lt (smaps : Smaps) : ∀ m ∈ smaps.mappings, ∀ f ∈ m.fields, ∀ name,
    f.value name < 2 ^ 63 := by
  intro m hm f hf name
  have hfield : f.value name ≤ m.total name := List.le_sum_of_mem (List.mem_map_of_mem hf)
  have htotal : m.total name ≤ totals name smaps.mappings :=
    List.le_sum_of_mem (List.mem_map_of_mem hm)
  have hfits := smaps.fits name
  omega

/-- What is returned for a file: the heaps, and what is taken for one. -/
theorem parseHeapSmaps_sums (smaps : Smaps) {reads : List ReadResult}
    (hlen : (smapsText smaps.mappings).length ≤ 65535)
    (hreads : ReadsAll reads (smapsText smaps.mappings)) (buf : Bytes) :
    ∃ s, parseHeapSmaps (some reads) buf = some s ∧ ∀ name, (s.get name).toInt =
      totals name (smaps.mappings.filter fun m => m.IsHeap) + totals name (mistaken smaps.mappings) := by
  let text : CStr := ⟨_, smapsText_nulFree smaps.mappings⟩
  have hreads : ReadsAll reads text.bytes := hreads
  obtain ⟨hcount, hcontents⟩ := procReadFile_contents hreads buf 65536
  have htext : (cstr (procReadFile (some reads) buf 65536).1).bytes = smapsText smaps.mappings := by
    rw [hcontents]
    exact List.take_of_length_le hlen
  have hparse : parseHeapSmaps (some reads) buf =
      some ((lineStarts (smapsText smaps.mappings)).foldl smapsLine {
        inHeap := false, sizeKb := 0, rssKb := 0, pdKb := 0 }) := by
    rw [parseHeapSmaps]
    split
    · case h_1 hnone =>
      rw [hnone] at hcount
      exact absurd hcount.symm (Option.some_ne_none _)
    · case h_2 buf' n hsome =>
      rw [hsome] at htext
      rw [htext]
  refine ⟨_, hparse, fun name => ?_⟩
  have hle := totals_le name smaps.mappings
  have hfits := smaps.fits name
  have hzero : SmapsSums.get { inHeap := false, sizeKb := 0, rssKb := 0, pdKb := 0 } name = 0 := by
    cases name <;> rfl
  rw [foldl_mappings smaps.mappings _ smaps.value_lt name, hzero, Int64.zero_add,
    Int64.toInt_ofNat_of_lt (by omega), Nat.cast_add]

theorem sumsRight_iff {ms : List Mapping} {s : SmapsSums} (h : ∀ name, (s.get name).toInt =
    totals name (ms.filter fun m => m.IsHeap) + totals name (mistaken ms)) :
    SumsRight ms s ↔ ∀ before m after, ms = before ++ m :: after → ¬ m.IsHeap →
      Named (m :: after) → ∀ name, m.total name = 0 := by
  have hright : SumsRight ms s ↔ ∀ name, ∀ m ∈ mistaken ms, m.total name = 0 := by
    refine forall_congr' fun name => ?_
    have hzero : totals name (mistaken ms) = 0 ↔ ∀ m ∈ mistaken ms, m.total name = 0 := by
      rw [totals, List.sum_eq_zero_iff]
      simp
    rw [h name, ← hzero, totals]
    omega
  rw [hright]
  constructor
  · intro hall before m after hsplit hheap hnamed name
    exact hall name m (mem_mistaken_iff.2 ⟨before, after, hsplit, hheap, hnamed⟩)
  · intro hall name m hm
    obtain ⟨before, after, hsplit, hheap, hnamed⟩ := mem_mistaken_iff.1 hm
    exact hall before m after hsplit hheap hnamed name

/-- **The sums are right** exactly when every mapping that is no heap has nothing to add, if the
name of a heap comes in its fields or after it. -/
theorem heap_smaps_right_iff (smaps : Smaps) (reads : List ReadResult)
    (hlen : (smapsText smaps.mappings).length ≤ 65535)
    (hreads : ReadsAll reads (smapsText smaps.mappings)) (buf : Bytes) :
    (∃ s, parseHeapSmaps (some reads) buf = some s ∧ SumsRight smaps.mappings s) ↔
      ∀ before m after, smaps.mappings = before ++ m :: after → ¬ m.IsHeap →
        Named (m :: after) → ∀ name, m.total name = 0 := by
  obtain ⟨s, hparse, hsums⟩ := parseHeapSmaps_sums smaps hlen hreads buf
  rw [hparse, ← sumsRight_iff hsums]
  constructor
  · rintro ⟨s', hs', hright⟩
    rwa [Option.some.inj hs']
  · intro hright
    exact ⟨s, rfl, hright⟩

/-- The text of a program, and its heap. -/
def programSmaps : Smaps where
  mappings := [
    { address := (CStr.lit "00400000-00401000 r-xp 00000000 08:01 42 /bin/x").bytes
      fields := [.kb .size 17 4, .kb .rss 18 4]
      noNewline := by decide
      nulFree := by decide
      starts := by decide },
    { address := (CStr.lit "01000000-01021000 rw-p 00000000 00:00 0 [heap]").bytes
      fields := [.kb .size 15 132, .kb .rss 16 100, .kb .privateDirty 6 100]
      noNewline := by decide
      nulFree := by decide
      starts := by decide }]
  fits name := by cases name <;> decide

theorem heap_smaps_right_iff_program :
    (∃ s, parseHeapSmaps (some [.data (smapsText programSmaps.mappings)]) [] = some s ∧
        SumsRight programSmaps.mappings s) ↔
      ∀ before m after, programSmaps.mappings = before ++ m :: after → ¬ m.IsHeap →
        Named (m :: after) → ∀ name, m.total name = 0 :=
  heap_smaps_right_iff programSmaps _ (by decide +kernel)
    (.single (by decide +kernel)) []

/-- The text of the program is counted as heap. -/
theorem program_counted_as_heap :
    ¬ ∀ (smaps : Smaps) (reads : List ReadResult), (smapsText smaps.mappings).length ≤ 65535 →
      ReadsAll reads (smapsText smaps.mappings) → ∀ buf,
        ∃ s, parseHeapSmaps (some reads) buf = some s ∧ SumsRight smaps.mappings s := by
  intro h
  obtain ⟨s, hparse, hright⟩ := h programSmaps _ (by decide +kernel)
    (.single (by decide +kernel)) []
  obtain ⟨s', hparse', hsums⟩ := parseHeapSmaps_sums programSmaps (by decide +kernel)
    (.single (by decide +kernel)) []
  rw [hparse, Option.some.injEq] at hparse'
  rw [← hparse'] at hsums
  have hnone := (sumsRight_iff hsums).1 hright [] _ _ rfl (by decide +kernel) (by decide +kernel) .size
  revert hnone
  decide +kernel

end Heapmon

end Qmem
