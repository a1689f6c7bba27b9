import Qmem.Lib.Scanf
import Qmem.ProcContents
import Qmem.Services.CounterDeltas

/-!
# What meminfo reads of a text

The text is read line by line, but neither the search for the colon nor the one for the number
ends with the line. Both still find what belongs to the line, if every line is a key, a colon and
a number; so a counter gets the number of the last line with its key.

Main result: `parseMeminfo_lines`.
-/

namespace Qmem

open CLib

namespace Meminfo

/-- A printable ASCII character that is neither white space nor a colon. -/
def isKeyByte (c : UInt8) : Bool := 0x21 ≤ c && c ≤ 0x7e && c ≠ 0x3a

/-- A line of `/proc/meminfo`: a key, a colon, blanks, a number, and perhaps the unit. -/
structure MeminfoEntry where
  key : Token isKeyByte
  blanks : Bytes
  digits : Token Json.isDigit
  unit : Bool
  key_length : key.bytes.length ≤ 63
  blanks_blank : ∀ c ∈ blanks, c = 0x20 ∨ c = 0x09
  fits : Json.natValue digits.bytes < 2 ^ 63

namespace MeminfoEntry

def value (e : MeminfoEntry) : Nat := Json.natValue e.digits.bytes

def unitText (e : MeminfoEntry) : Bytes := if e.unit then (CStr.lit " kB").bytes else []

def line (e : MeminfoEntry) : Bytes :=
  e.key.bytes ++ 0x3a :: (e.blanks ++ (e.digits.bytes ++ e.unitText))

end MeminfoEntry

/-- The number on the last line with the key, or 0. -/
def lastValue (key : CStr) (entries : List MeminfoEntry) : Nat :=
  ((entries.filter fun e => e.key.bytes = key.bytes).getLast?.map MeminfoEntry.value).getD 0

/-! ## One line -/

theorem isKeyByte_not_space {c : UInt8} (h : isKeyByte c = true) : isspace c = false := by
  simp only [isKeyByte, Bool.and_eq_true, decide_eq_true_eq, UInt8.le_iff_toNat_le] at h
  obtain ⟨⟨hmin, -⟩, -⟩ := h
  have hlt : ¬ c ≤ 0x0d := by
    rw [UInt8.le_iff_toNat_le]
    exact Nat.not_le_of_lt (Nat.lt_of_lt_of_le (by decide) hmin)
  have hne : c ≠ 0x20 := by
    rintro rfl
    exact absurd hmin (by decide)
  simp [isspace, hne, hlt]

theorem isspace_of_blank {c : UInt8} (h : c = 0x20 ∨ c = 0x09) : isspace c = true := by
  obtain rfl | rfl := h
  · decide
  · decide

/-- A key is not trimmed. -/
theorem trim_key (key : Token isKeyByte) :
    (key.bytes.reverse.dropWhile isspace).reverse.dropWhile isspace = key.bytes := by
  have hkeep {s : Bytes} (hs : ∀ c ∈ s, isKeyByte c = true) : s.dropWhile isspace = s := by
    cases s with
    | nil => rfl
    | cons c s =>
      have hc := isKeyByte_not_space (hs c List.mem_cons_self)
      exact List.dropWhile_cons_of_neg (by simpa using hc)
  rw [hkeep fun c hc => key.all c (List.mem_reverse.1 hc), List.reverse_reverse, hkeep key.all]

/-- What comes behind a line's number is no digit. -/
theorem MeminfoEntry.stops (e : MeminfoEntry) {rest : Bytes} (hrest : ∀ c ∈ rest.head?, c = 0x0a) :
    Stops Json.isDigit (e.unitText ++ rest) := by
  rw [MeminfoEntry.unitText]
  intro c hc
  split at hc
  · rw [← Option.some.inj hc]
    rfl
  · rw [hrest c hc]
    rfl

/-- **A line says what it says**, whatever lines come behind it. -/
theorem procParseKvKb_line (e : MeminfoEntry) {rest : Bytes}
    (hrest : ∀ c ∈ rest.head?, c = 0x0a) :
    procParseKvKb (e.line ++ rest) 64 = some (e.key.bytes, .ofNat e.value) := by
  have hline : e.line ++ rest =
      e.key.bytes ++ 0x3a :: (e.blanks ++ (e.digits.bytes ++ (e.unitText ++ rest))) := by
    simp [MeminfoEntry.line]
  have hcolon : 0x3a ∉ e.key.bytes := e.key.not_mem (by decide)
  have hspaces (c : UInt8) (hc : c ∈ e.blanks) : isspace c = true :=
    isspace_of_blank (e.blanks_blank c hc)
  have hnumber : strtoll (e.digits.bytes ++ (e.unitText ++ rest)) = .ofNat e.value := by
    have hread := strtoll_digits e.digits (e.stops hrest)
    have hfits := e.fits
    rw [show max (-2 ^ 63) (min (2 ^ 63 - 1) (Json.natValue e.digits.bytes : Int)) =
      Json.natValue e.digits.bytes by omega] at hread
    exact hread
  rw [procParseKvKb, hline, strchr_append hcolon, Option.map_some]
  simp only [List.drop_one, List.tail_cons]
  rw [List.length_append, Nat.add_sub_cancel, List.take_left, List.take_of_length_le e.key_length,
    trim_key, dropWhile_stops hspaces (e.digits.stops isspace_of_isDigit _), hnumber]

/-- A line has neither a newline nor a NUL. -/
theorem MeminfoEntry.not_mem_line (e : MeminfoEntry) {c : UInt8} (hc : c = 0x0a ∨ c = 0) :
    c ∉ e.line := by
  have hkey : isKeyByte c = false := by
    obtain rfl | rfl := hc
    · decide
    · decide
  have hdigit : Json.isDigit c = false := by
    obtain rfl | rfl := hc
    · decide
    · decide
  have hblanks : c ∉ e.blanks := by
    intro h
    have hblank := e.blanks_blank c h
    obtain rfl | rfl := hc
    · exact absurd hblank (by decide)
    · exact absurd hblank (by decide)
  have hunit : c ∉ e.unitText := by
    rw [MeminfoEntry.unitText]
    obtain rfl | rfl := hc
    · cases e.unit <;> decide
    · cases e.unit <;> decide
  rw [MeminfoEntry.line, List.mem_append, List.mem_cons, List.mem_append, List.mem_append]
  rintro (h | rfl | h | h | h)
  · exact e.key.not_mem hkey h
  · exact absurd hc (by decide)
  · exact hblanks h
  · exact e.digits.not_mem hdigit h
  · exact hunit h

theorem MeminfoEntry.line_ne_nil (e : MeminfoEntry) : e.line ≠ [] :=
  List.append_ne_nil_of_left_ne_nil e.key.ne_nil _

/-! ## The text -/

/-- The contents of the file; only the last line may have no newline. -/
def entriesText (ended : Bool) (entries : List MeminfoEntry) : Bytes :=
  unlines ended (entries.map MeminfoEntry.line)

theorem entriesText_nulFree (ended : Bool) (entries : List MeminfoEntry) :
    0 ∉ entriesText ended entries := by
  refine zero_not_mem_unlines fun line hline => ?_
  obtain ⟨e, -, rfl⟩ := List.mem_map.1 hline
  exact e.not_mem_line (.inr rfl)

/-- The loop comes to the start of every line. -/
theorem lineStarts_entries (ended : Bool) (e : MeminfoEntry) (entries : List MeminfoEntry) :
    ∃ rest, (∀ c ∈ rest.head?, c = 0x0a) ∧ lineStarts (entriesText ended (e :: entries)) =
      (e.line ++ rest) :: lineStarts (entriesText ended entries) := by
  have hnl : 0x0a ∉ e.line := e.not_mem_line (.inl rfl)
  have hnewline (rest : Bytes) : ∀ c ∈ (0x0a :: rest).head?, c = (0x0a : UInt8) :=
    fun c hc => (Option.some.inj hc).symm
  rw [entriesText, List.map_cons]
  by_cases hlast : entries = []
  · rw [hlast, List.map_nil, unlines, entriesText, List.map_nil, unlines]
    cases ended with
    | true => exact ⟨[0x0a], hnewline [], lineStarts_line hnl []⟩
    | false =>
      refine ⟨[], fun c hc => absurd hc (Option.not_mem_none c), ?_⟩
      rw [List.append_nil]
      exact lineStarts_last hnl e.line_ne_nil
  · rw [unlines_cons ended e.line fun h => hlast (List.map_eq_nil_iff.1 h)]
    exact ⟨_, hnewline _, lineStarts_line hnl _⟩

/-- The number that an entry gives a counter. -/
def MeminfoCounter.given (c : MeminfoCounter) (e : MeminfoEntry) : Option Nat :=
  if e.key.bytes = c.key.bytes then some e.value else none

theorem assigned_line (c : MeminfoCounter) (e : MeminfoEntry) {rest : Bytes}
    (hrest : ∀ c ∈ rest.head?, c = 0x0a) :
    c.assigned (e.line ++ rest) = (c.given e).map Int64.ofNat := by
  have hvalue : Int64.ofNat e.value ≥ 0 := by
    have hnumber : (Int64.ofNat e.value).toInt = e.value := Int64.toInt_ofNat_of_lt e.fits
    rw [ge_iff_le, Int64.le_iff_toInt_le, hnumber]
    exact Int.natCast_nonneg _
  rw [MeminfoCounter.assigned, procParseKvKb_line e hrest, Option.bind_some,
    MeminfoCounter.given]
  simp only [hvalue, true_and]
  split
  · rfl
  · rfl

theorem last_lines (c : MeminfoCounter) (ended : Bool) (entries : List MeminfoEntry)
    (before : Nat) :
    Assign.last c.assigned (lineStarts (entriesText ended entries)) (.ofNat before) =
      .ofNat (Assign.last c.given entries before) := by
  induction entries generalizing before with
  | nil => rfl
  | cons e entries ih =>
    obtain ⟨rest, hrest, hstarts⟩ := lineStarts_entries ended e entries
    rw [hstarts, Assign.last_cons, Assign.last_cons, assigned_line c e hrest, ← ih]
    cases c.given e with
    | none => rfl
    | some value => rfl

theorem last_given (c : MeminfoCounter) (entries : List MeminfoEntry) :
    Assign.last c.given entries 0 = lastValue c.key entries := by
  have hgiven : entries.filterMap c.given =
      (entries.filter fun e => e.key.bytes = c.key.bytes).map MeminfoEntry.value := by
    rw [← List.filterMap_eq_map, List.filterMap_filter]
    refine List.filterMap_congr fun e _ => ?_
    rw [MeminfoCounter.given]
    by_cases hkey : e.key.bytes = c.key.bytes
    · rw [if_pos hkey, if_pos (decide_eq_true hkey)]
      rfl
    · rw [if_neg hkey, if_neg (by simpa using hkey)]
  rw [Assign.last, hgiven, List.getLast?_map, lastValue]

theorem lastValue_lt (key : CStr) (entries : List MeminfoEntry) :
    lastValue key entries < 2 ^ 63 := by
  rw [lastValue]
  cases hlast : (entries.filter fun e => e.key.bytes = key.bytes).getLast? with
  | none => decide
  | some e => exact e.fits

/-- **What `parse_meminfo` reads**: each of its counters is the number of the last line with its
key, and 0 if there is none. -/
theorem parseMeminfo_lines (entries : List MeminfoEntry) (ended : Bool) (reads : List ReadResult)
    (hreads : ReadsAll reads (entriesText ended entries))
    (hlen : (entriesText ended entries).length < 8192) (buf : Bytes) :
    ∃ data, parseMeminfo (some reads) buf = some data ∧
      ∀ c ∈ meminfoCounters, (c.field data).toInt = lastValue c.key entries := by
  set text : CStr := ⟨entriesText ended entries, entriesText_nulFree ended entries⟩ with htext
  have htextReads : ReadsAll reads text.bytes := hreads
  obtain ⟨hcount, hbuf⟩ := procReadFile_contents htextReads buf 8192
  have hall : text.length ≤ 8192 - 1 := Nat.le_sub_one_of_lt hlen
  rw [CStr.cut_eq_self hall] at hbuf
  obtain ⟨data, hdata⟩ : ∃ data, parseMeminfo (some reads) buf = some data := by
    rw [parseMeminfo]
    split
    · case h_1 hfail =>
      rw [hfail] at hcount
      exact absurd hcount.symm (Option.some_ne_none _)
    · exact ⟨_, rfl⟩
  refine ⟨data, hdata, fun c hc => ?_⟩
  have hfield := parseMeminfo_field (r := ⟨some reads, buf⟩) hdata hc
  rw [hfield, MeminfoRead.value, MeminfoRead.text, hbuf, htext]
  rw [show (0 : Int64) = .ofNat 0 from rfl, last_lines, last_given,
    Int64.toInt_ofNat_of_lt (lastValue_lt c.key entries)]

/-- A line with one blank. -/
def kbEntry (key : Token isKeyByte) (digits : Token Json.isDigit)
    (hkey : key.bytes.length ≤ 63 := by decide)
    (hfits : Json.natValue digits.bytes < 2 ^ 63 := by decide) : MeminfoEntry where
  key := key
  blanks := [0x20]
  digits := digits
  unit := true
  key_length := hkey
  blanks_blank := by decide
  fits := hfits

/-- `Cached` twice, and between the two lines a key that ends like it. -/
def cachedTwice : List MeminfoEntry := [
  kbEntry ⟨(CStr.lit "Cached").bytes, by decide, by decide⟩
    ⟨(CStr.lit "3").bytes, by decide, by decide⟩,
  kbEntry ⟨(CStr.lit "SwapCached").bytes, by decide, by decide⟩
    ⟨(CStr.lit "70").bytes, by decide, by decide⟩,
  kbEntry ⟨(CStr.lit "Cached").bytes, by decide, by decide⟩
    ⟨(CStr.lit "12").bytes, by decide, by decide⟩]

theorem parseMeminfo_lines_cached :
    ∃ data, parseMeminfo (some [.data (entriesText false cachedTwice)]) [] = some data ∧
      ∀ c ∈ meminfoCounters, (c.field data).toInt = lastValue c.key cachedTwice :=
  parseMeminfo_lines cachedTwice false _ (.single (by decide)) (by decide) []

end Meminfo

end Qmem
