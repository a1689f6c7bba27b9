import Qmem.ProcContents
import Mathlib.Data.List.DropRight

/-!
# The command line (`proc_read_cmdline`)

The arguments stand in `/proc/<pid>/cmdline` with a NUL behind each of them. The loop that puts
spaces in their place leaves out the last byte, and a NUL there is no white space to trim.

Main result: `procReadCmdline_right_iff`.
-/

namespace Qmem

open CLib

/-! ## The loops -/

/-- What stands in place of a byte of the arguments. -/
def blanked (c : UInt8) : UInt8 := if c = 0 then 0x20 else c

theorem blanked_ne_zero (c : UInt8) : blanked c ≠ 0 := by
  rw [blanked]
  split
  · decide
  · assumption

theorem blanked_of_ne {c : UInt8} (h : c ≠ 0) : blanked c = c := if_neg h

theorem isspace_blanked_zero : isspace (blanked 0) = true := by decide

/-- Trimming leaves NULs where it went. -/
theorem trimTrailing_eq (p : UInt8 → Bool) (text rest : Bytes) :
    ∃ trimmed, trimTrailing p (text ++ rest) text.length =
      (text.rdropWhile p ++ (List.replicate trimmed 0 ++ rest), (text.rdropWhile p).length) := by
  induction text using List.reverseRecOn generalizing rest with
  | nil => exact ⟨0, rfl⟩
  | append_singleton text c ih =>
    have hlast : (text ++ [c] ++ rest).getD text.length 0 = c := by simp
    rw [List.length_append, List.length_singleton, trimTrailing, hlast]
    by_cases hc : p c = true
    · have hset : (text ++ [c] ++ rest).set text.length 0 = text ++ (0 :: rest) := by simp
      obtain ⟨trimmed, htrim⟩ := ih (0 :: rest)
      refine ⟨trimmed + 1, ?_⟩
      rw [if_pos hc, hset, htrim, List.rdropWhile_concat_pos p text c hc, List.replicate_succ',
        List.append_assoc]
      rfl
    · refine ⟨0, ?_⟩
      rw [if_neg hc, List.rdropWhile_concat_neg p text c hc, List.length_append,
        List.length_singleton]
      rfl

/-- What `proc_read_cmdline` does with `n` bytes that it has read. -/
def cmdlineOf (buf : Bytes) (n : Nat) : Bytes × Option Nat :=
  Prod.map id some
    (trimTrailing isspace ((buf.take (n - 1)).map blanked ++ buf.drop (n - 1)) n)

/-- Every byte is blanked but the last. -/
theorem cmdlineOf_concat (front rest : Bytes) (last : UInt8) :
    cmdlineOf (front ++ [last] ++ rest) (front ++ [last]).length =
      Prod.map id some
        (trimTrailing isspace (front.map blanked ++ [last] ++ rest) (front ++ [last]).length) := by
  have hlen : (front ++ [last]).length - 1 = front.length := by simp
  rw [cmdlineOf, hlen, List.append_assoc, List.take_left, List.drop_left, ← List.append_assoc]

/-! ## The string and the count -/

/-- The arguments with spaces between them and none at the end. -/
def cmdlineText (text : Bytes) : CStr where
  bytes := (text.map blanked).rdropWhile isspace
  nulFree h := by
    obtain ⟨c, -, hc⟩ := List.mem_map.1 ((List.rdropWhile_prefix isspace _).mem h)
    exact blanked_ne_zero c hc

/-- A NUL at the end is not part of it. -/
theorem cmdlineText_concat_nul (front : Bytes) :
    (cmdlineText (front ++ [0])).bytes = (front.map blanked).rdropWhile isspace := by
  show ((front ++ [0]).map blanked).rdropWhile isspace = _
  rw [List.map_append]
  exact List.rdropWhile_concat_pos isspace _ _ isspace_blanked_zero

/-- The buffer begins with the string of these arguments, and the `int` returned is its length. -/
structure CmdlineRight (text : Bytes) (result : Bytes × Option Nat) : Prop where
  buffer : ∃ rest, result.1 = (cmdlineText text).bytes ++ 0 :: rest
  returned : result.2.map (fun n => (Int32.ofNat n).toInt) =
    some ((cmdlineText text).length : Int)

/-- A count as an `int` is right as long as there is such an `int`. -/
theorem int32_ofNat_eq_iff (n : Nat) : (Int32.ofNat n).toInt = (n : Int) ↔ n < 2 ^ 31 := by
  rw [Int32.toInt_ofNat', Int.bmod_def]
  simp only [Int32.size]
  split <;> omega

/-- It is never the count that is one less. -/
theorem int32_ofNat_succ_ne (n : Nat) : (Int32.ofNat (n + 1)).toInt ≠ (n : Int) := by
  rw [Int32.toInt_ofNat', Int.bmod_def]
  simp only [Int32.size]
  split <;> omega

variable {reads : List ReadResult} {contents : Bytes}

theorem procReadCmdline_eq (h : ReadsAll reads contents) (buf : Bytes) (size : Nat) :
    ∃ rest, procReadCmdline (some reads) buf size =
      cmdlineOf (contents.take (size - 1) ++ 0 :: rest) (contents.take (size - 1)).length := by
  have hread := procReadLoop_contents h size (Nat.zero_le buf.length)
  rw [Nat.sub_zero] at hread
  obtain ⟨rest, hbuffer⟩ := hread.buffer
  have hcount := hread.count
  rw [List.take_zero, List.nil_append] at hbuffer
  rw [Nat.zero_add] at hcount
  refine ⟨rest, ?_⟩
  rw [procReadCmdline, procReadFile]
  generalize procReadLoop size reads buf 0 = result at hbuffer hcount
  obtain ⟨buf', count⟩ := result
  subst hbuffer hcount
  rfl

/-- Without a NUL at the end the string is right, and the count if it is an `int`. -/
theorem cmdline_right_iff_of_last (front rest : Bytes) {last : UInt8} (hlast : last ≠ 0) :
    CmdlineRight (front ++ [last])
        (cmdlineOf (front ++ [last] ++ 0 :: rest) (front ++ [last]).length) ↔
      (cmdlineText (front ++ [last])).length < 2 ^ 31 := by
  have htext : front.map blanked ++ [last] = (front ++ [last]).map blanked := by
    simp [blanked_of_ne hlast]
  obtain ⟨trimmed, htrim⟩ := trimTrailing_eq isspace ((front ++ [last]).map blanked) (0 :: rest)
  rw [List.length_map] at htrim
  have hresult : cmdlineOf (front ++ [last] ++ 0 :: rest) (front ++ [last]).length =
      ((cmdlineText (front ++ [last])).bytes ++ (List.replicate trimmed 0 ++ 0 :: rest),
        some (cmdlineText (front ++ [last])).length) := by
    rw [cmdlineOf_concat, htext, htrim]
    rfl
  rw [hresult, ← int32_ofNat_eq_iff]
  constructor
  · intro h
    exact Option.some.inj h.returned
  · intro h
    refine ⟨?_, congrArg some h⟩
    cases trimmed with
    | zero => exact ⟨rest, rfl⟩
    | succ trimmed => exact ⟨List.replicate trimmed 0 ++ 0 :: rest, rfl⟩

/-- A NUL at the end stops the trimming at once. -/
theorem cmdlineOf_nul (front rest : Bytes) :
    cmdlineOf (front ++ [0] ++ rest) (front ++ [0]).length =
      (front.map blanked ++ 0 :: rest, some (front.length + 1)) := by
  have hlen : (front.map blanked).length = front.length := List.length_map _
  have hlast : (front.map blanked ++ [0] ++ rest).getD front.length 0 = 0 := by
    rw [← hlen]
    simp
  rw [cmdlineOf_concat, List.length_append, List.length_singleton, trimTrailing, hlast,
    if_neg (by decide), List.append_assoc]
  rfl

/-- It is counted, and keeps the blanks before it. -/
theorem not_cmdline_right_of_nul (front rest : Bytes) :
    ¬ CmdlineRight (front ++ [0])
      (cmdlineOf (front ++ [0] ++ 0 :: rest) (front ++ [0]).length) := by
  rw [cmdlineOf_nul]
  intro hright
  obtain ⟨rest', hbuffer⟩ := hright.buffer
  have hfree : 0 ∉ front.map blanked := by
    intro hmem
    obtain ⟨c, -, hc⟩ := List.mem_map.1 hmem
    exact blanked_ne_zero c hc
  -- The buffer ends its string at its first NUL.
  have hstring : (cmdlineText (front ++ [0])).bytes = front.map blanked := by
    have hleft := CStr.cstr_terminated_append ⟨front.map blanked, hfree⟩ (0 :: rest)
    have hright := CStr.cstr_terminated_append (cmdlineText (front ++ [0])) rest'
    rw [← hbuffer] at hright
    exact congrArg CStr.bytes (hright.symm.trans hleft)
  have hlength : (cmdlineText (front ++ [0])).length = front.length := by
    rw [CStr.length, hstring, List.length_map]
  have hcount := Option.some.inj hright.returned
  rw [hlength] at hcount
  exact int32_ofNat_succ_ne front.length hcount

/-- **The command line is right exactly when it does not end in a NUL**, as every one does that a
process leaves as it was, and its length is an `int`. -/
theorem procReadCmdline_right_iff (h : ReadsAll reads contents) (buf : Bytes) (size : Nat) :
    CmdlineRight (contents.take (size - 1)) (procReadCmdline (some reads) buf size) ↔
      (contents.take (size - 1)).getLast? ≠ some 0 ∧
        (cmdlineText (contents.take (size - 1))).length < 2 ^ 31 := by
  obtain ⟨rest, hread⟩ := procReadCmdline_eq h buf size
  rw [hread]
  rcases List.eq_nil_or_concat (contents.take (size - 1)) with htext | ⟨front, last, htext⟩
  · rw [htext]
    exact ⟨fun _ => ⟨by simp, by decide⟩, fun _ => ⟨⟨rest, rfl⟩, rfl⟩⟩
  · rw [htext, List.concat_eq_append]
    by_cases hlast : last = 0
    · subst hlast
      constructor
      · intro hright
        exact absurd hright (not_cmdline_right_of_nul front rest)
      · intro hnul
        exact absurd (by simp) hnul.1
    · rw [cmdline_right_iff_of_last front rest hlast]
      simp [hlast]

/-- A title without a NUL, cut to a buffer for four bytes, with its last blank gone. -/
theorem procReadCmdline_right_iff_title :
    CmdlineRight [0x61, 0x62, 0x20]
      (procReadCmdline (some [.data [0x61], .eintr, .data [0x62, 0x20, 0x63]]) [1, 2, 3, 4] 4) := by
  have hreads : ReadsAll [.data [0x61], .eintr, .data [0x62, 0x20, 0x63]]
      ([0x61] ++ ([0x62, 0x20, 0x63] ++ [])) :=
    .data (by decide) (.eintr (.data (by decide) .done))
  exact (procReadCmdline_right_iff hreads [1, 2, 3, 4] 4).2 ⟨by decide, by decide⟩

/-- The command line of `foo` without arguments: three bytes, of which four are reported. With a
second NUL at the end a blank stays behind. -/
theorem cmdline_counts_nul :
    cstr (procReadCmdline (some [.data [0x66, 0x6f, 0x6f, 0]]) (List.replicate 8 1) 8).1 =
        CStr.lit "foo" ∧
      (procReadCmdline (some [.data [0x66, 0x6f, 0x6f, 0]]) (List.replicate 8 1) 8).2 = some 4 ∧
      ¬ CmdlineRight [0x66, 0x6f, 0x6f, 0]
        (procReadCmdline (some [.data [0x66, 0x6f, 0x6f, 0]]) (List.replicate 8 1) 8) ∧
      cstr (procReadCmdline (some [.data [0x61, 0, 0]]) (List.replicate 8 1) 8).1 =
        CStr.lit "a " := by
  refine ⟨by decide, by decide, fun h => ?_, by decide⟩
  exact absurd (Option.some.inj h.returned) (by decide)

end Qmem
