import Qmem.Lib.CInt
import Qmem.Lib.Scan
import Qmem.Lib.Scanf
import Qmem.ProcContents
import Qmem.Services.Cpuload
import Qmem.Services.Procstat

/-!
# The stat file of a process (`services/cpuload.c`, `services/procstat.c`)

The command stands in parentheses and may hold parentheses itself, so both parsers take it from
the first opening one to the last closing one. The fields behind it are counted by the white space
between them.

Main result: `stat_line_read`.
-/

namespace Qmem

open CLib

/-! ## The parsers -/

/-- What both parsers do with the line in `buf`: the command goes into `cmd`, cut to its size, and
`p` comes to the state. The length wraps around where the only closing parenthesis comes before
the opening one; what is behind the array reads as nothing. -/
def statCommand (buf cmd : Bytes) (cmdSize : Nat) : Option (Bytes × Bytes) :=
  let s := (cstr buf).bytes
  match strchr s 0x28, strrchr s 0x29 with
  | some openParen, some closeParen =>
    let commLen := sizeT (openParen.length - closeParen.length - 1)
    let commLen := if commLen ≥ cmdSize then cmdSize - 1 else commLen
    let comm := (buf.drop (s.length - openParen.length + 1)).take commLen
    some (memcpy cmd 0 (comm ++ [0]), buf.drop (s.length - closeParen.length + 2))
  | _, _ => none

namespace Cpuload

/-- `*p && !isspace(*p)` -/
def fieldChar (c : UInt8) : Bool := c ≠ 0 && !isspace c

/-- The loop that comes to a field, when `n` fields are before it. -/
def skipFields : Nat → Bytes → Bytes
  | 0, p => p
  | n + 1, p =>
    if p.head?.getD 0 = 0 then p
    else skipFields n ((p.dropWhile fieldChar).dropWhile isspace)

/-- `parse_pid_stat`, with the array `buf`, and what is in `cmd` before; `none` for -1. -/
def parsePidStat (file : ProcFile) (buf cmd : Bytes) (cmdSize : Nat) : Option PidStat :=
  match procReadFile file buf 1024 with
  | (_, none) => none
  | (buf, some _) =>
    (statCommand buf cmd cmdSize).map fun (cmd, p) =>
      let p := skipFields (14 - 3) p
      let utime := strtoul p
      let p := (strtoulEnd p).dropWhile isspace
      { utime, stime := strtoul p, cmd := cstr cmd }

end Cpuload

namespace Procstat

/-- `read_proc_state`, of the file that `tid` selects: the state and the command. -/
def readProcState (file : ProcFile) (buf cmd : Bytes) (cmdSize : Nat) : Option (UInt8 × CStr) :=
  match procReadFile file buf 1024 with
  | (_, none) => none
  | (buf, some _) =>
    (statCommand buf cmd cmdSize).map fun (cmd, p) => (p.head?.getD 0, cstr cmd)

end Procstat

/-! ## Lines -/

/-- `isalpha`. -/
def isLetter (c : UInt8) : Bool := (0x41 ≤ c && c ≤ 0x5a) || (0x61 ≤ c && c ≤ 0x7a)

/-- A line: the fields before `utime`, and those behind `stime`, may be any numbers. -/
structure StatLine where
  pid : Int
  comm : CStr
  state : UInt8
  before : List Int
  utime : UInt64
  stime : UInt64
  behind : List Int
  letter : isLetter state = true
  place : before.length = 10

namespace StatLine

/-- The fields behind the command, from the state on. -/
def fields (line : StatLine) : List Bytes :=
  [line.state] :: (line.before.map decInt ++
    decNat line.utime.toNat :: decNat line.stime.toNat :: line.behind.map decInt)

def text (line : StatLine) : Bytes :=
  decInt line.pid ++ 0x20 :: 0x28 ::
    (line.comm.bytes ++ 0x29 :: 0x20 :: [0x20].intercalate line.fields)

end StatLine

theorem fieldChar_of_isNumChar : ∀ c, Json.isNumChar c = true → Cpuload.fieldChar c = true :=
  forall_byte (by decide +kernel)

theorem fieldChar_of_isLetter : ∀ c, isLetter c = true → Cpuload.fieldChar c = true :=
  forall_byte (by decide +kernel)

theorem isspace_of_fieldChar (c : UInt8) (h : Cpuload.fieldChar c = true) : isspace c = false := by
  rw [Cpuload.fieldChar, Bool.and_eq_true, Bool.not_eq_true'] at h
  exact h.2

/-- A field that is a number. -/
def intField (i : Int) : Token Cpuload.fieldChar where
  bytes := decInt i
  ne_nil := decInt_ne_nil i
  all c hc := fieldChar_of_isNumChar c (Json.decInt_all_numChar i c hc)

def StatLine.stateField (line : StatLine) : Token Cpuload.fieldChar where
  bytes := [line.state]
  ne_nil := List.cons_ne_nil _ _
  all c hc := by
    rw [List.mem_singleton.1 hc]
    exact fieldChar_of_isLetter _ line.letter

/-- Fields that are followed by others. -/
theorem intercalate_append {word : Bytes} (front back : List Bytes) :
    [0x20].intercalate (front ++ word :: back) =
      front.flatMap (fun w => w ++ [0x20]) ++ [0x20].intercalate (word :: back) := by
  induction front with
  | nil => rfl
  | cons w front ih =>
    rw [List.cons_append, List.intercalate_cons_of_ne_nil (by simp), ih, List.flatMap_cons]
    simp

/-- The first field, and the space behind it if there are more. -/
theorem intercalate_first (word : Bytes) (back : List Bytes) :
    ∃ rest, [0x20].intercalate (word :: back) = word ++ rest ∧ ∀ c ∈ rest.head?, c = 0x20 := by
  cases back with
  | nil => exact ⟨[], by simp [List.intercalate], by simp⟩
  | cons w back =>
    refine ⟨0x20 :: [0x20].intercalate (w :: back), ?_, by simp⟩
    rw [List.intercalate_cons_cons]
    simp

/-- The loop passes as many fields as there are before `p`. -/
theorem skipFields_words (words : List (Token Cpuload.fieldChar)) {p : Bytes}
    (hp : Stops isspace p) :
    Cpuload.skipFields words.length (words.flatMap (fun w => w.bytes ++ [0x20]) ++ p) = p := by
  induction words with
  | nil => rfl
  | cons word words ih =>
    set next := words.flatMap (fun w => w.bytes ++ [0x20]) ++ p with hnext
    have hsplit : (word :: words).flatMap (fun w => w.bytes ++ [0x20]) ++ p =
        word.bytes ++ ([0x20] ++ next) := by
      rw [List.flatMap_cons, List.append_assoc, List.append_assoc]
    have hstops : Stops isspace next := by
      cases words with
      | nil => exact hp
      | cons w words =>
        rw [hnext, List.flatMap_cons, List.append_assoc, List.append_assoc]
        exact w.stops isspace_of_fieldChar _
    have hhead : ¬ (word.bytes ++ ([0x20] ++ next)).head?.getD 0 = 0 := by
      obtain ⟨c, hc, hfield⟩ := word.head ([0x20] ++ next)
      rw [hc, Option.getD_some]
      intro hzero
      rw [hzero] at hfield
      exact absurd hfield (by decide)
    have hspace : Stops Cpuload.fieldChar ([0x20] ++ next) := by
      intro c hc
      rw [← Option.some.inj hc]
      rfl
    rw [hsplit, List.length_cons, Cpuload.skipFields, if_neg hhead,
      dropWhile_stops word.all hspace, dropWhile_stops (by decide) hstops]
    exact ih

/-! ## What is read of a line -/

namespace StatLine

variable (line : StatLine)

theorem not_mem_fields {c : UInt8} (hnum : Json.isNumChar c = false) (hletter : isLetter c = false)
    (hspace : c ≠ 0x20) : c ∉ [0x20].intercalate line.fields := by
  have hint (i : Int) : c ∉ decInt i := fun hc => by
    simp [Json.decInt_all_numChar i c hc] at hnum
  have hnat (n : Nat) : c ∉ decNat n := fun hc => by
    simp [Json.isNumChar_of_isDigit (Json.decNat_all_digit n c hc)] at hnum
  have hstate : c ≠ line.state := by
    rintro rfl
    simp [line.letter] at hletter
  have hword : ∀ word ∈ line.fields, c ∉ word := by
    intro word hw
    simp only [fields, List.mem_cons, List.mem_append, List.mem_map] at hw
    rcases hw with rfl | ⟨i, -, rfl⟩ | rfl | rfl | ⟨i, -, rfl⟩
    · simpa using hstate
    · exact hint i
    · exact hnat _
    · exact hnat _
    · exact hint i
  generalize line.fields = words at hword
  induction words with
  | nil => simp
  | cons word words ih =>
    obtain ⟨hhere, hlater⟩ := List.forall_mem_cons.1 hword
    cases words with
    | nil => simpa [List.intercalate] using hhere
    | cons w words =>
      rw [List.intercalate_cons_cons]
      simp only [List.mem_append, List.mem_singleton, not_or]
      exact ⟨⟨hhere, hspace⟩, ih hlater⟩

theorem nulFree : 0 ∉ line.text := by
  have hfields := line.not_mem_fields (c := 0) rfl rfl (by decide)
  have hpid : 0 ∉ decInt line.pid := fun hc =>
    absurd (Json.decInt_all_numChar line.pid 0 hc) (by decide)
  simp [text, hpid, line.comm.nulFree, hfields]

/-- The first opening parenthesis is the one before the command. -/
theorem strchr_text (tail : Bytes) :
    strchr (line.text ++ tail) 0x28 =
      some (0x28 :: (line.comm.bytes ++
        0x29 :: 0x20 :: ([0x20].intercalate line.fields ++ tail))) := by
  have hfront : (0x28 : UInt8) ∉ decInt line.pid ++ [0x20] := by
    simp only [List.mem_append, List.mem_singleton, not_or]
    exact ⟨fun hc => absurd (Json.decInt_all_numChar line.pid _ hc) (by decide), by decide⟩
  rw [← strchr_append hfront]
  simp [text]

/-- The last closing parenthesis is the one after the command. -/
theorem strrchr_text {tail : Bytes} (htail : ∀ c ∈ tail, c = 0x0a) :
    strrchr (line.text ++ tail) 0x29 =
      some (0x29 :: 0x20 :: ([0x20].intercalate line.fields ++ tail)) := by
  have hback : (0x29 : UInt8) ∉ 0x20 :: ([0x20].intercalate line.fields ++ tail) := by
    simp only [List.mem_cons, List.mem_append, not_or]
    refine ⟨by decide, line.not_mem_fields rfl rfl (by decide), fun hc => ?_⟩
    exact absurd (htail _ hc) (by decide)
  rw [← strrchr_append (decInt line.pid ++ 0x20 :: 0x28 :: line.comm.bytes) hback]
  simp [text]

/-- The command, cut to the array, and the fields. -/
theorem statCommand_eq {buf tail : Bytes} (hbuf : (cstr buf).bytes = line.text ++ tail)
    (htail : ∀ c ∈ tail, c = 0x0a) (hlen : line.text.length < 2 ^ 64) (cmd : Bytes)
    {cmdSize : Nat} (hsize : 0 < cmdSize) :
    ∃ cmd' more, statCommand buf cmd cmdSize =
        some (cmd', [0x20].intercalate line.fields ++ more) ∧
      cstr cmd' = line.comm.cut (cmdSize - 1) ∧ ∀ c ∈ more.head?, c = 0x0a ∨ c = 0 := by
  obtain ⟨rest, hrest, hnul⟩ := cstr_append_rest buf
  set fields := [0x20].intercalate line.fields with hfields
  -- the two parentheses
  have hopen : strchr (cstr buf).bytes 0x28 =
      some (0x28 :: (line.comm.bytes ++ 0x29 :: 0x20 :: (fields ++ tail))) := by
    rw [hbuf, line.strchr_text]
  have hclose : strrchr (cstr buf).bytes 0x29 = some (0x29 :: 0x20 :: (fields ++ tail)) := by
    rw [hbuf, line.strrchr_text htail]
  -- the length of the command
  have htext : line.text.length = (decInt line.pid).length + 2 + line.comm.bytes.length + 2 +
      fields.length := by
    rw [text, ← hfields]
    simp only [List.length_append, List.length_cons]
    omega
  have hcomm : sizeT (((0x28 :: (line.comm.bytes ++ 0x29 :: 0x20 :: (fields ++ tail))).length : Int) -
      (0x29 :: 0x20 :: (fields ++ tail)).length - 1) = line.comm.bytes.length := by
    rw [← sizeT_natCast (n := line.comm.bytes.length) (by omega)]
    congr 1
    simp only [List.length_append, List.length_cons]
    omega
  have hstart : buf.drop ((cstr buf).bytes.length -
      (0x28 :: (line.comm.bytes ++ 0x29 :: 0x20 :: (fields ++ tail))).length + 1) =
        line.comm.bytes ++ 0x29 :: 0x20 :: (fields ++ tail ++ rest) := by
    have hplace : (cstr buf).bytes.length -
        (0x28 :: (line.comm.bytes ++ 0x29 :: 0x20 :: (fields ++ tail))).length + 1 =
          (decInt line.pid ++ [0x20, 0x28]).length := by
      simp only [hbuf, htext, List.length_append, List.length_cons, List.length_nil]
      omega
    have hsplit : buf = (decInt line.pid ++ [0x20, 0x28]) ++
        (line.comm.bytes ++ 0x29 :: 0x20 :: (fields ++ tail ++ rest)) := by
      rw [hrest, hbuf]
      simp [text, hfields]
    rw [hplace, hsplit, List.drop_left]
  have hafter : buf.drop ((cstr buf).bytes.length - (0x29 :: 0x20 :: (fields ++ tail)).length + 2) =
      fields ++ (tail ++ rest) := by
    have hplace : (cstr buf).bytes.length - (0x29 :: 0x20 :: (fields ++ tail)).length + 2 =
        (decInt line.pid ++ 0x20 :: 0x28 :: (line.comm.bytes ++ [0x29, 0x20])).length := by
      simp only [hbuf, htext, List.length_append, List.length_cons, List.length_nil]
      omega
    have hsplit : buf = (decInt line.pid ++ 0x20 :: 0x28 :: (line.comm.bytes ++ [0x29, 0x20])) ++
        (fields ++ (tail ++ rest)) := by
      rw [hrest, hbuf]
      simp [text, hfields]
    rw [hplace, hsplit, List.drop_left]
  have hcut : (line.comm.bytes ++ 0x29 :: 0x20 :: (fields ++ tail ++ rest)).take
      (if line.comm.bytes.length ≥ cmdSize then cmdSize - 1 else line.comm.bytes.length) =
        (line.comm.cut (cmdSize - 1)).bytes := by
    rw [CStr.cut_bytes]
    split
    · rw [List.take_append_of_le_length (by omega)]
    · rw [List.take_left, List.take_of_length_le (by omega)]
  refine ⟨memcpy cmd 0 ((line.comm.cut (cmdSize - 1)).bytes ++ [0]), tail ++ rest, ?_,
    CStr.cstr_memcpy _ _, fun c hc => ?_⟩
  · simp only [statCommand, hopen, hclose, hcomm, hstart, hafter, hcut]
  · cases tail with
    | nil => exact Or.inr (hnul c hc)
    | cons b tail =>
      rw [← Option.some.inj hc]
      exact Or.inl (htail b List.mem_cons_self)

/-- The eleven fields before `utime` are passed. -/
theorem skipFields_eq (more : Bytes) :
    Cpuload.skipFields (14 - 3) ([0x20].intercalate line.fields ++ more) =
      [0x20].intercalate (decNat line.utime.toNat :: decNat line.stime.toNat ::
        line.behind.map decInt) ++ more := by
  set words := line.stateField :: line.before.map intField with hwords
  have hlen : words.length = 14 - 3 := by simp [hwords, line.place]
  have hbytes : line.fields = words.map Token.bytes ++
      decNat line.utime.toNat :: decNat line.stime.toNat :: line.behind.map decInt := by
    simp [fields, hwords, stateField, intField, Function.comp_def]
  obtain ⟨rest, hfirst, -⟩ := intercalate_first (decNat line.utime.toNat)
    (decNat line.stime.toNat :: line.behind.map decInt)
  have hstops : Stops isspace ([0x20].intercalate (decNat line.utime.toNat ::
      decNat line.stime.toNat :: line.behind.map decInt) ++ more) := by
    rw [hfirst, List.append_assoc]
    exact (natToken line.utime.toNat).stops isspace_of_isDigit _
  rw [hbytes, intercalate_append, List.append_assoc, List.flatMap_map, ← hlen]
  exact skipFields_words words hstops

/-- The two numbers are read. -/
theorem times_read {more : Bytes} (hmore : ∀ c ∈ more.head?, c = 0x0a ∨ c = 0) :
    let p := [0x20].intercalate (decNat line.utime.toNat :: decNat line.stime.toNat ::
      line.behind.map decInt) ++ more
    strtoul p = line.utime ∧ strtoul ((strtoulEnd p).dropWhile isspace) = line.stime := by
  intro p
  have hread (n : UInt64) {rest : Bytes} (hrest : Stops Json.isDigit rest) :
      strtoul (decNat n.toNat ++ rest) = n := by
    have hvalue := strtoul_digits (natToken n.toNat) hrest
    have hlt : ¬ n.toNat ≥ 2 ^ 64 := Nat.not_le.2 n.toNat_lt
    rw [natToken, Json.natValue_decNat, ulong, if_neg hlt, UInt64.ofNat_toNat] at hvalue
    exact hvalue
  obtain ⟨rest, hfirst, hspace⟩ := intercalate_first (decNat line.stime.toNat)
    (line.behind.map decInt)
  have hend : Stops Json.isDigit (rest ++ more) := by
    intro c hc
    cases rest with
    | nil => rcases hmore c hc with rfl | rfl <;> rfl
    | cons b rest =>
      rw [← Option.some.inj hc, hspace b rfl]
      rfl
  have hp : p = decNat line.utime.toNat ++ ([0x20] ++ (decNat line.stime.toNat ++ (rest ++ more))) := by
    simp only [p]
    rw [List.intercalate_cons_cons, hfirst]
    simp
  have hgap : Stops Json.isDigit ([0x20] ++ (decNat line.stime.toNat ++ (rest ++ more))) := by
    intro c hc
    rw [← Option.some.inj hc]
    rfl
  have hdone : strtoulEnd p = [0x20] ++ (decNat line.stime.toNat ++ (rest ++ more)) := by
    rw [hp]
    exact strtoulEnd_digits (natToken line.utime.toNat) hgap
  have hskip : (strtoulEnd p).dropWhile isspace = decNat line.stime.toNat ++ (rest ++ more) := by
    rw [hdone]
    exact dropWhile_stops (by decide) ((natToken line.stime.toNat).stops isspace_of_isDigit _)
  refine ⟨?_, ?_⟩
  · rw [hp]
    exact hread line.utime hgap
  · rw [hskip]
    exact hread line.stime hend

/-- The line in the array, when the file has been read. -/
theorem command_read {newline : Bool} {reads : List ReadResult} (hfits : line.text.length ≤ 1023)
    (hreads : ReadsAll reads (line.text ++ if newline then [0x0a] else [])) (buf cmd : Bytes)
    {cmdSize : Nat} (hsize : 0 < cmdSize) :
    ∃ buf' count cmd' more, procReadFile (some reads) buf 1024 = (buf', some count) ∧
      statCommand buf' cmd cmdSize = some (cmd', [0x20].intercalate line.fields ++ more) ∧
      cstr cmd' = line.comm.cut (cmdSize - 1) ∧ ∀ c ∈ more.head?, c = 0x0a ∨ c = 0 := by
  set text : CStr := ⟨line.text ++ if newline then [0x0a] else [], by
    rw [List.mem_append, not_or]
    refine ⟨line.nulFree, ?_⟩
    cases newline <;> simp⟩ with htext
  have hreads : ReadsAll reads text.bytes := hreads
  obtain ⟨hcount, hcontents⟩ := procReadFile_contents hreads buf 1024
  cases hfile : procReadFile (some reads) buf 1024 with
  | mk buf' count =>
    rw [hfile] at hcount hcontents
    simp only at hcount
    rw [hcount] at hfile
    have hbuf : (cstr buf').bytes = line.text ++ (if newline then [0x0a] else []).take
        (1023 - line.text.length) := by
      rw [hcontents, CStr.cut_bytes, htext, List.take_append, List.take_of_length_le hfits]
    have htail : ∀ c ∈ (if newline then [0x0a] else []).take (1023 - line.text.length),
        c = (0x0a : UInt8) := by
      intro c hc
      have hmem := List.mem_of_mem_take hc
      cases newline with
      | false => exact absurd hmem List.not_mem_nil
      | true => exact List.mem_singleton.1 hmem
    obtain ⟨cmd', more, hcommand, hcut, hmore⟩ :=
      line.statCommand_eq hbuf htail (by omega) cmd hsize
    exact ⟨buf', _, cmd', more, by rw [hcount], hcommand, hcut, hmore⟩

/-- The state and the command. -/
theorem readProcState_line {newline : Bool} {reads : List ReadResult}
    (hfits : line.text.length ≤ 1023)
    (hreads : ReadsAll reads (line.text ++ if newline then [0x0a] else [])) (buf cmd : Bytes)
    {cmdSize : Nat} (hsize : 0 < cmdSize) :
    Procstat.readProcState (some reads) buf cmd cmdSize =
      some (line.state, line.comm.cut (cmdSize - 1)) := by
  obtain ⟨buf', count, cmd', more, hfile, hcommand, hcut, -⟩ :=
    line.command_read hfits hreads buf cmd hsize
  have hstate : ([0x20].intercalate line.fields ++ more).head?.getD 0 = line.state := by
    obtain ⟨rest, hfirst, -⟩ := intercalate_first [line.state] (line.before.map decInt ++
      decNat line.utime.toNat :: decNat line.stime.toNat :: line.behind.map decInt)
    rw [StatLine.fields, hfirst]
    rfl
  simp only [Procstat.readProcState, hfile, hcommand, Option.map_some, hstate, hcut]

end StatLine

/-- **Both parsers** read the line, whatever the command is: it is cut to the array, and the two
numbers and the state are those of the line. -/
theorem stat_line_read (line : StatLine) (newline : Bool) (reads : List ReadResult)
    (hfits : line.text.length ≤ 1023)
    (hreads : ReadsAll reads (line.text ++ if newline then [0x0a] else []))
    (buf cmd : Bytes) (cmdSize : Nat) (hsize : 0 < cmdSize) :
    Cpuload.parsePidStat (some reads) buf cmd cmdSize =
        some ⟨line.utime, line.stime, line.comm.cut (cmdSize - 1)⟩ ∧
      Procstat.readProcState (some reads) buf cmd cmdSize =
        some (line.state, line.comm.cut (cmdSize - 1)) := by
  refine ⟨?_, line.readProcState_line hfits hreads buf cmd hsize⟩
  obtain ⟨buf', count, cmd', more, hfile, hcommand, hcut, hmore⟩ :=
    line.command_read hfits hreads buf cmd hsize
  obtain ⟨hutime, hstime⟩ := line.times_read hmore
  simp only [Cpuload.parsePidStat, hfile, hcommand, Option.map_some, line.skipFields_eq, hutime,
    hstime, hcut]

/-- A command that looks like the end of its own line. -/
def trickyLine : StatLine where
  pid := 7
  comm := .lit "a) R 1 (b"
  state := 0x53
  before := List.replicate 10 (-1)
  utime := 12
  stime := 34
  behind := [0, 20]
  letter := rfl
  place := rfl

theorem stat_line_read_tricky :
    Cpuload.parsePidStat (some [.data trickyLine.text]) [] [] 64 =
        some ⟨12, 34, .lit "a) R 1 (b"⟩ ∧
      Procstat.readProcState (some [.data trickyLine.text]) [] [] 64 =
        some (0x53, .lit "a) R 1 (b") := by
  have hcut : trickyLine.comm.cut (64 - 1) = .lit "a) R 1 (b" := by decide
  have hreads : ReadsAll [.data trickyLine.text] (trickyLine.text ++ if false then [0x0a] else []) :=
    .data (List.append_ne_nil_of_right_ne_nil _ (List.cons_ne_nil _ _)) .done
  have hread := stat_line_read trickyLine false _ (by decide) hreads [] [] 64 (by decide)
  rw [hcut] at hread
  exact hread

end Qmem
