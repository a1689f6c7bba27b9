import Qmem.ProcCmdline

/-!
# What a read leaves in a buffer

A file that can be read leaves a string that does not depend on the buffer. One that cannot leaves
what there was before the error, over the older text, without a NUL. The services take the command
line, or else the name, and look only at whether the first of them could be read: an empty command
line hides the name, and if both fail whatever is in the buffer is taken for the command.

Main result: `commandInto_own_iff`.
-/

namespace Qmem

open CLib

/-! ## What there is to be read -/

/-- The bytes that a loop reads into this much room; false if an error ends it. -/
def readData : List ReadResult → Nat → Bytes × Bool
  | [], _ => ([], true)
  | r :: rs, room =>
    if 0 < room then
      match r with
      | .eintr => readData rs room
      | .error => ([], false)
      | .data bs =>
        let bs := bs.take room
        if bs.length = 0 then ([], true)
        else Prod.map (bs ++ ·) id (readData rs (room - bs.length))
    else ([], true)

def fileData (file : ProcFile) (size : Nat) : Bytes × Bool :=
  match file with
  | none => ([], false)
  | some reads => readData reads (size - 1)

theorem memcpy_nil (buf : Bytes) (off : Nat) : memcpy buf off [] = buf := by
  simp [memcpy]

/-- A text at the front of a buffer, with its NUL. -/
theorem memcpy_nul (buf text : Bytes) :
    memcpy buf 0 (text ++ [0]) = text ++ 0 :: buf.drop (text.length + 1) := by
  simp [memcpy]

/-- Two copies, the second behind the first. -/
theorem memcpy_append {buf : Bytes} {off : Nat} (h : off ≤ buf.length) (src more : Bytes) :
    memcpy (memcpy buf off src) (off + src.length) more = memcpy buf off (src ++ more) := by
  have hlen : (buf.take off ++ src).length = off + src.length := by
    rw [List.length_append, List.length_take_of_le h]
  have hdrop : (memcpy buf off src).drop (off + src.length + more.length) =
      buf.drop (off + (src ++ more).length) := by
    rw [memcpy, ← hlen, List.drop_append, List.drop_eq_nil_of_le (by omega), List.nil_append,
      List.drop_drop, hlen, List.length_append]
    congr 1
    omega
  rw [memcpy, take_memcpy h, hdrop, memcpy]
  simp only [List.append_assoc]

/-- The loop of `proc_read_file`, on any buffer. -/
theorem procReadLoop_data (size : Nat) (reads : List ReadResult) {buf : Bytes} {total : Nat}
    (hbuf : total ≤ buf.length) :
    procReadLoop size reads buf total =
      if (readData reads (size - 1 - total)).2 then
        (memcpy buf total ((readData reads (size - 1 - total)).1 ++ [0]),
          some (total + (readData reads (size - 1 - total)).1.length))
      else (memcpy buf total (readData reads (size - 1 - total)).1, none) := by
  induction reads generalizing buf total with
  | nil => rfl
  | cons r reads ih =>
    by_cases hroom : total < size - 1
    · have hpos : 0 < size - 1 - total := by omega
      cases r with
      | eintr =>
        rw [procReadLoop, if_pos hroom, readData, if_pos hpos]
        exact ih hbuf
      | error =>
        rw [procReadLoop, if_pos hroom, readData, if_pos hpos]
        simp [memcpy_nil]
      | data bs =>
        rw [procReadLoop, if_pos hroom, readData, if_pos hpos]
        simp only
        by_cases hend : (bs.take (size - 1 - total)).length = 0
        · rw [if_pos hend, if_pos hend]
          rfl
        · rw [if_neg hend, if_neg hend]
          set got := bs.take (size - 1 - total)
          have hroom' : size - 1 - (total + got.length) = size - 1 - total - got.length := by omega
          have hlen := length_memcpy_ge got hbuf
          rw [ih hlen, hroom']
          simp only [Prod.map_fst, Prod.map_snd, id_eq, memcpy_append hbuf, List.append_assoc,
            List.length_append, Nat.add_assoc]
    · have hfull : readData (r :: reads) (size - 1 - total) = ([], true) := by
        cases r <;> rw [readData, if_neg (by omega)]
      rw [procReadLoop_full (by omega), hfull]
      rfl

theorem readData_length (reads : List ReadResult) (room : Nat) :
    (readData reads room).1.length ≤ room := by
  induction reads generalizing room with
  | nil => exact Nat.zero_le _
  | cons r reads ih =>
    by_cases hroom : 0 < room
    · cases r with
      | eintr =>
        rw [readData, if_pos hroom]
        exact ih room
      | error =>
        rw [readData, if_pos hroom]
        exact Nat.zero_le _
      | data bs =>
        rw [readData, if_pos hroom]
        simp only
        split
        · exact Nat.zero_le _
        · have hrest := ih (room - (bs.take room).length)
          have htake := List.length_take_le room bs
          rw [Prod.map_fst, List.length_append]
          omega
    · cases r <;> rw [readData, if_neg hroom] <;> exact Nat.zero_le _

theorem fileData_length (file : ProcFile) (size : Nat) :
    (fileData file size).1.length ≤ size - 1 := by
  cases file with
  | none => exact Nat.zero_le _
  | some reads => exact readData_length reads (size - 1)

theorem procReadFile_ok {file : ProcFile} {size : Nat} (h : (fileData file size).2 = true)
    (buf : Bytes) : procReadFile file buf size =
      (memcpy buf 0 ((fileData file size).1 ++ [0]), some (fileData file size).1.length) := by
  cases file with
  | none => exact absurd h Bool.false_ne_true
  | some reads =>
    rw [fileData] at h ⊢
    rw [procReadFile, procReadLoop_data size reads (Nat.zero_le _), Nat.sub_zero, if_pos h,
      Nat.zero_add]

theorem procReadFile_fails {file : ProcFile} {size : Nat} (h : (fileData file size).2 = false)
    (buf : Bytes) : procReadFile file buf size = (memcpy buf 0 (fileData file size).1, none) := by
  cases file with
  | none => rw [fileData, memcpy_nil]; rfl
  | some reads =>
    rw [fileData] at h ⊢
    rw [procReadFile, procReadLoop_data size reads (Nat.zero_le _), Nat.sub_zero,
      if_neg (by simp [h])]

/-! ## The strings -/

theorem cstr_append_nul (front rest : Bytes) : cstr (front ++ 0 :: rest) = cstr front := by
  refine CStr.ext ?_
  show (front ++ 0 :: rest).takeWhile _ = front.takeWhile _
  rw [List.takeWhile_append]
  split_ifs with hfree
  · rw [(List.takeWhile_prefix _).eq_of_length hfree]
    simp
  · rfl

/-- Every byte of a text is blanked but the last. -/
def blankedFront (text : Bytes) : Bytes :=
  (text.take (text.length - 1)).map blanked ++ text.drop (text.length - 1)

theorem blankedFront_length (text : Bytes) : (blankedFront text).length = text.length := by
  rw [blankedFront, List.length_append, List.length_map, List.length_take, List.length_drop]
  omega

/-- The string that `proc_read_cmdline` makes of a text. -/
def cmdlineString (text : Bytes) : CStr := cstr ((blankedFront text).rdropWhile isspace)

/-- The string that `proc_read_comm` makes of it. -/
def commString (text : Bytes) : CStr := cstr (text.rdropWhile fun c => c == 0x0a || c == 0x0d)

/-- A command line that can be read. -/
def ownCmdline (cmdline : ProcFile) (size : Nat) : Option CStr :=
  if (fileData cmdline size).2 then some (cmdlineString (fileData cmdline size).1) else none

/-- A name that can be read. -/
def ownComm (comm : ProcFile) (size : Nat) : Option CStr :=
  if (fileData comm size).2 then some (commString (fileData comm size).1) else none

/-- Trimming keeps the NUL behind the text. -/
theorem cstr_trimTrailing (p : UInt8 → Bool) (text rest : Bytes) :
    cstr (trimTrailing p (text ++ 0 :: rest) text.length).1 = cstr (text.rdropWhile p) := by
  obtain ⟨trimmed, htrim⟩ := trimTrailing_eq p text (0 :: rest)
  rw [htrim]
  cases trimmed with
  | zero => exact cstr_append_nul _ rest
  | succ trimmed => exact cstr_append_nul _ (List.replicate trimmed 0 ++ 0 :: rest)

variable {cmdline comm : ProcFile} {size : Nat}

theorem procReadCmdline_ok (h : (fileData cmdline size).2 = true) (buf : Bytes) :
    ∃ left n, procReadCmdline cmdline buf size = (left, some n) ∧
      cstr left = cmdlineString (fileData cmdline size).1 := by
  rw [procReadCmdline, procReadFile_ok h]
  generalize (fileData cmdline size).1 = text
  have hbuf := memcpy_nul buf text
  generalize buf.drop (text.length + 1) = rest at hbuf
  have hblanked : ((text ++ 0 :: rest).take (text.length - 1)).map blanked ++
      (text ++ 0 :: rest).drop (text.length - 1) = blankedFront text ++ 0 :: rest := by
    rw [List.take_append_of_le_length (by omega), List.drop_append_of_le_length (by omega),
      blankedFront, List.append_assoc]
  have htrim := cstr_trimTrailing isspace (blankedFront text) rest
  rw [blankedFront_length, ← hblanked] at htrim
  rw [hbuf]
  exact ⟨_, _, rfl, htrim⟩

theorem procReadCmdline_fails (h : (fileData cmdline size).2 = false) (buf : Bytes) :
    procReadCmdline cmdline buf size = (memcpy buf 0 (fileData cmdline size).1, none) := by
  rw [procReadCmdline, procReadFile_fails h]

theorem procReadComm_ok (h : (fileData comm size).2 = true) (buf : Bytes) :
    cstr (procReadComm comm buf size).1 = commString (fileData comm size).1 := by
  rw [procReadComm, procReadFile_ok h]
  generalize (fileData comm size).1 = text
  rw [memcpy_nul]
  exact cstr_trimTrailing _ text _

theorem procReadComm_fails (h : (fileData comm size).2 = false) (buf : Bytes) :
    procReadComm comm buf size = (memcpy buf 0 (fileData comm size).1, none) := by
  rw [procReadComm, procReadFile_fails h]

/-! ## Slots -/

section

variable {α β : Type}

/-- What is put into slots one after the other, each with what its slot held before. -/
def fills (old : Nat → β) (ps : List α) : List (α × β) := ps.zipIdx.map fun p => (p.1, old p.2)

theorem fills_concat (old : Nat → β) (ps : List α) (p : α) :
    fills old (ps ++ [p]) = fills old ps ++ [(p, old ps.length)] := by
  simp [fills, List.zipIdx_append]

theorem mem_of_mem_fills {old : Nat → β} {ps : List α} {fill : α × β} (h : fill ∈ fills old ps) :
    fill.1 ∈ ps := by
  obtain ⟨p, hp, rfl⟩ := List.mem_map.1 h
  exact List.fst_mem_of_mem_zipIdx hp

theorem fills_length (old : Nat → β) (ps : List α) : (fills old ps).length = ps.length := by
  simp [fills]

/-- Without the slots it is the list itself. -/
theorem map_fills {γ : Type} (old : Nat → β) (ps : List α) (f : α → γ) :
    (fills old ps).map (fun fill => f fill.1) = ps.map f := by
  have hfst : (fills old ps).map Prod.fst = ps := by
    rw [fills, List.map_map]
    exact List.zipIdx_map_fst 0 ps
  have hmap : (fills old ps).map (fun fill => f fill.1) = ((fills old ps).map Prod.fst).map f := by
    rw [List.map_map]
    rfl
  rw [hmap, hfst]

/-- What is in the slots is right exactly when each of them has been filled well. -/
theorem map_fills_eq_iff {γ : Type} (old : Nat → β) (ps : List α) (text : α × β → γ) (own : α → γ) :
    (fills old ps).map text = ps.map own ↔ ∀ fill ∈ fills old ps, text fill = own fill.1 := by
  rw [← map_fills old ps own]
  exact List.map_inj_left

end

/-! ## The command -/

/-- A command read into a buffer, as procmem, fdmon and heapmon do it. -/
def commandInto (cmdline comm : ProcFile) (buf : Bytes) : Bytes :=
  match procReadCmdline cmdline buf 128 with
  | (buf, some _) => buf
  | (buf, none) => (procReadComm comm buf 128).1

/-- What the command of a process should be: its command line, or its name if that is empty or
cannot be read. -/
def ownCommand (cmdline comm : ProcFile) : CStr :=
  let name := (ownComm comm 128).getD (.lit "")
  match ownCmdline cmdline 128 with
  | some command => if command = .lit "" then name else command
  | none => name

theorem cstr_rdropWhile_length (p : UInt8 → Bool) (text : Bytes) :
    (cstr (text.rdropWhile p)).length ≤ text.length :=
  (List.takeWhile_prefix _).length_le.trans (List.rdropWhile_prefix p text).length_le

theorem ownComm_length {comm : ProcFile} {size : Nat} {name : CStr}
    (h : ownComm comm size = some name) : name.length ≤ size - 1 := by
  rw [ownComm, Option.ite_none_right_eq_some] at h
  rw [← Option.some.inj h.2]
  exact (cstr_rdropWhile_length _ _).trans (fileData_length comm size)

theorem ownCmdline_length {cmdline : ProcFile} {size : Nat} {command : CStr}
    (h : ownCmdline cmdline size = some command) : command.length ≤ size - 1 := by
  rw [ownCmdline, Option.ite_none_right_eq_some] at h
  rw [← Option.some.inj h.2]
  have hlen := cstr_rdropWhile_length isspace (blankedFront (fileData cmdline size).1)
  rw [blankedFront_length] at hlen
  exact hlen.trans (fileData_length cmdline size)

/-- It fits into any of the buffers. -/
theorem ownCommand_length (cmdline comm : ProcFile) : (ownCommand cmdline comm).length ≤ 127 := by
  have hname : ((ownComm comm 128).getD (.lit "")).length ≤ 127 := by
    cases h : ownComm comm 128 with
    | none => exact Nat.zero_le _
    | some name => exact ownComm_length h
  rw [ownCommand]
  cases h : ownCmdline cmdline 128 with
  | none => exact hname
  | some command =>
    show (if command = .lit "" then _ else command).length ≤ 127
    split
    · exact hname
    · exact ownCmdline_length h

/-- Reading it into this buffer goes well. -/
def CommandOk (cmdline comm : ProcFile) (buf : Bytes) : Prop :=
  match ownCmdline cmdline 128 with
  | some command => command ≠ .lit "" ∨ (ownComm comm 128).getD (.lit "") = .lit ""
  | none => (ownComm comm 128).isSome ∨
    ((fileData comm 128).1 ++ (fileData cmdline 128).1 ++ buf).headD 0 = 0

instance (cmdline comm : ProcFile) (buf : Bytes) : Decidable (CommandOk cmdline comm buf) :=
  match h : ownCmdline cmdline 128 with
  | some command =>
    decidable_of_iff (command ≠ .lit "" ∨ (ownComm comm 128).getD (.lit "") = .lit "")
      (by rw [CommandOk, h])
  | none =>
    decidable_of_iff ((ownComm comm 128).isSome ∨
      ((fileData comm 128).1 ++ (fileData cmdline 128).1 ++ buf).headD 0 = 0)
      (by rw [CommandOk, h])

theorem cstr_eq_empty_iff (buf : Bytes) : cstr buf = .lit "" ↔ buf.headD 0 = 0 := by
  have hempty : (CStr.lit "").bytes = [] := rfl
  rw [CStr.ext_iff, hempty, cstr]
  cases buf with
  | nil => exact iff_of_true rfl rfl
  | cons c buf => by_cases hc : c = 0 <;> simp [hc]

/-- What two failures leave begins with what the last of them has read. -/
theorem headD_memcpy (buf part more : Bytes) :
    (memcpy (memcpy buf 0 part) 0 more).headD 0 = (more ++ part ++ buf).headD 0 := by
  cases more with
  | cons c more => rfl
  | nil =>
    rw [memcpy_nil]
    cases part with
    | cons c part => rfl
    | nil => rw [memcpy_nil]; rfl

/-- **The command is the process's own exactly when** its command line can be read and does not
hide a name, or its name can be read, or the buffer happens to be empty. -/
theorem commandInto_own_iff (cmdline comm : ProcFile) (buf : Bytes) :
    cstr (commandInto cmdline comm buf) = ownCommand cmdline comm ↔
      CommandOk cmdline comm buf := by
  rw [commandInto, ownCommand, CommandOk, ownCmdline]
  cases hcmdline : (fileData cmdline 128).2 with
  | true =>
    obtain ⟨left, n, hread, hleft⟩ := procReadCmdline_ok hcmdline buf
    rw [hread, if_pos rfl]
    by_cases hempty : cmdlineString (fileData cmdline 128).1 = .lit ""
    · simp [hleft, hempty, eq_comm]
    · simp [hleft, hempty]
  | false =>
    rw [procReadCmdline_fails hcmdline, if_neg (by decide), ownComm]
    cases hcomm : (fileData comm 128).2 with
    | true => simp [procReadComm_ok hcomm]
    | false =>
      simp only [procReadComm_fails hcomm, Bool.false_eq_true, if_false, Option.getD_none,
        Option.isSome_none, false_or, cstr_eq_empty_iff, headD_memcpy]

/-- And the commands of a whole scan are, when each of them is. -/
theorem fills_own_iff {α : Type} (pid : α → Int32) (cmdline comm : α → ProcFile)
    (old : Nat → Bytes) (ps : List α) :
    (fills old ps).map (fun fill =>
        (pid fill.1, cstr (commandInto (cmdline fill.1) (comm fill.1) fill.2))) =
      ps.map (fun p => (pid p, ownCommand (cmdline p) (comm p))) ↔
    ∀ fill ∈ fills old ps, CommandOk (cmdline fill.1) (comm fill.1) fill.2 := by
  rw [map_fills_eq_iff]
  refine forall₂_congr fun fill _ => ?_
  rw [← commandInto_own_iff, Prod.mk.injEq]
  exact and_iff_right rfl

end Qmem
