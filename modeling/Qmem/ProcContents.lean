import Qmem.ProcUtils

/-!
# What `proc_read_file` reads

A file is read in pieces of any length, with interruptions; what ends up in the buffer is as much
of its contents as fits.

Main result: `procReadFile_contents`.
-/

namespace Qmem

open CLib

/-- Results of reading a file with these contents to its end. -/
inductive ReadsAll : List ReadResult → Bytes → Prop where
  | done : ReadsAll [] []
  | eintr {reads : List ReadResult} {text : Bytes} : ReadsAll reads text →
      ReadsAll (.eintr :: reads) text
  | data {reads : List ReadResult} {text piece : Bytes} : piece ≠ [] → ReadsAll reads text →
      ReadsAll (.data piece :: reads) (piece ++ text)

theorem ReadsAll.single {text : Bytes} (h : text ≠ []) : ReadsAll [.data text] text := by
  have hread : ReadsAll [.data text] (text ++ []) := .data h .done
  rwa [List.append_nil] at hread

/-- Nothing is read any more into a full buffer. -/
theorem procReadLoop_full {size total : Nat} (h : size - 1 ≤ total) (reads : List ReadResult)
    (buf : Bytes) : procReadLoop size reads buf total = (memcpy buf total [0], some total) := by
  cases reads with
  | nil => rfl
  | cons r reads => cases r <;> rw [procReadLoop, if_neg (by omega)]

/-- The string in a buffer ends at a NUL. -/
theorem cstr_length_le {buf : Bytes} {n : Nat} (h : buf[n]? = some 0) : (cstr buf).length ≤ n := by
  by_contra hlt
  have hlt : n < (buf.takeWhile (· ≠ 0)).length := Nat.lt_of_not_le hlt
  have hget := List.getElem?_eq_getElem hlt
  have hfront := (List.takeWhile_prefix (p := fun c : UInt8 => decide (c ≠ 0)) (l := buf))
  have hmem := List.mem_takeWhile_imp (List.getElem_mem hlt)
  rw [hfront.getElem hlt, Option.some.inj ((List.getElem?_eq_getElem _).symm.trans h)] at hmem
  exact absurd hmem (by decide)

theorem length_memcpy_ge {buf : Bytes} {off : Nat} (src : Bytes) (h : off ≤ buf.length) :
    off + src.length ≤ (memcpy buf off src).length := by
  simp only [memcpy, List.length_append, List.length_take, List.length_drop]
  omega

theorem getElem?_memcpy_nul {buf : Bytes} {off : Nat} (h : off ≤ buf.length) :
    (memcpy buf off [0])[off]? = some 0 := by
  have hlen : (buf.take off).length = off := List.length_take_of_le h
  rw [memcpy, List.append_assoc, List.getElem?_append_right hlen.le, hlen, Nat.sub_self]
  rfl

/-- Whatever is read, the buffer has a NUL in the end. -/
theorem procReadLoop_terminated {size : Nat} (reads : List ReadResult) {buf : Bytes} {total : Nat}
    (hbuf : total ≤ buf.length) (htotal : total ≤ size - 1) {n : Nat}
    (h : (procReadLoop size reads buf total).2 = some n) :
    (cstr (procReadLoop size reads buf total).1).length ≤ size - 1 := by
  have hdone : (cstr (memcpy buf total [0])).length ≤ size - 1 :=
    Nat.le_trans (cstr_length_le (getElem?_memcpy_nul hbuf)) htotal
  induction reads generalizing buf total with
  | nil => exact hdone
  | cons r reads ih =>
    by_cases hroom : total < size - 1
    · cases r with
      | eintr =>
        rw [procReadLoop, if_pos hroom] at h ⊢
        exact ih hbuf htotal h hdone
      | error =>
        rw [procReadLoop, if_pos hroom] at h
        exact absurd h.symm (Option.some_ne_none n)
      | data bs =>
        rw [procReadLoop, if_pos hroom] at h ⊢
        simp only at h ⊢
        have hgot : (bs.take (size - 1 - total)).length ≤ size - 1 - total :=
          List.length_take_le _ _
        split at h
        · case isTrue hnone =>
          rw [if_pos hnone]
          exact hdone
        · case isFalse hsome =>
          rw [if_neg hsome]
          have hlen := length_memcpy_ge (bs.take (size - 1 - total)) hbuf
          refine ih hlen (by omega) h (Nat.le_trans (cstr_length_le (getElem?_memcpy_nul hlen)) ?_)
          omega
    · rw [procReadLoop_full (by omega)]
      exact hdone

theorem procReadFile_terminated {file : ProcFile} {buf : Bytes} {size n : Nat}
    (h : (procReadFile file buf size).2 = some n) :
    (cstr (procReadFile file buf size).1).length ≤ size - 1 := by
  cases file with
  | none => exact absurd h.symm (Option.some_ne_none n)
  | some reads => exact procReadLoop_terminated reads (Nat.zero_le _) (Nat.zero_le _) h

/-- What is there, when `read` is what the loop still finds. -/
structure ReadTo (buf : Bytes) (total : Nat) (read : Bytes) (result : Bytes × Option Nat) :
    Prop where
  count : result.2 = some (total + read.length)
  buffer : ∃ rest, result.1 = buf.take total ++ read ++ 0 :: rest

theorem readTo_nil (buf : Bytes) (total : Nat) :
    ReadTo buf total [] (memcpy buf total [0], some total) :=
  ⟨rfl, buf.drop (total + 1), by simp [memcpy]⟩

/-- The loop, when `total` bytes have been read. -/
theorem procReadLoop_contents {reads : List ReadResult} {text : Bytes} (h : ReadsAll reads text)
    (size : Nat) {buf : Bytes} {total : Nat} (hbuf : total ≤ buf.length) :
    ReadTo buf total (text.take (size - 1 - total)) (procReadLoop size reads buf total) := by
  induction h generalizing buf total with
  | done =>
    rw [List.take_nil]
    exact readTo_nil buf total
  | eintr _ ih =>
    rw [procReadLoop]
    split
    · exact ih hbuf
    · case isFalse hfull =>
      rw [Nat.sub_eq_zero_of_le (by omega), List.take_zero]
      exact readTo_nil buf total
  | @data reads text piece hne _ ih =>
    by_cases hroom : total < size - 1
    · have hpiece : 0 < piece.length := List.length_pos_of_ne_nil hne
      have hsome : (piece.take (size - 1 - total)).length ≠ 0 := by
        rw [List.length_take]
        omega
      rw [procReadLoop, if_pos hroom]
      simp only [if_neg hsome]
      set got := piece.take (size - 1 - total) with hgot
      have htake : (memcpy buf total got).take (total + got.length) = buf.take total ++ got :=
        take_memcpy hbuf
      have hlen : total + got.length ≤ (memcpy buf total got).length := by
        simp only [memcpy, List.length_append, List.length_take, List.length_drop]
        omega
      obtain ⟨hcount, rest, hbuffer⟩ := ih hlen
      have hread : (piece ++ text).take (size - 1 - total) =
          got ++ text.take (size - 1 - (total + got.length)) := by
        rw [List.take_append, ← hgot, hgot, List.length_take]
        congr 2
        omega
      refine ⟨?_, rest, ?_⟩
      · rw [hcount, hread, List.length_append, Nat.add_assoc]
      · rw [hbuffer, htake, hread, List.append_assoc (buf.take total)]
    · rw [procReadLoop_full (by omega), Nat.sub_eq_zero_of_le (by omega), List.take_zero]
      exact readTo_nil buf total

/-- **The buffer** has as much of a text without NUL as fits. -/
theorem procReadFile_contents {reads : List ReadResult} {text : CStr}
    (h : ReadsAll reads text.bytes) (buf : Bytes) (size : Nat) :
    (procReadFile (some reads) buf size).2 = some (text.bytes.take (size - 1)).length ∧
      cstr (procReadFile (some reads) buf size).1 = text.cut (size - 1) := by
  have hread := procReadLoop_contents h size (Nat.zero_le buf.length)
  rw [Nat.sub_zero] at hread
  refine ⟨by rw [procReadFile, hread.count, Nat.zero_add], ?_⟩
  obtain ⟨rest, hbuffer⟩ := hread.buffer
  rw [procReadFile, hbuffer, List.take_zero, List.nil_append]
  exact CStr.cstr_terminated_append (text.cut (size - 1)) rest

/-- A text that fits is all there. -/
theorem procReadFile_whole {reads : List ReadResult} {text : CStr}
    (h : ReadsAll reads text.bytes) (buf : Bytes) {size : Nat} (hlen : text.length < size) :
    ∃ got, procReadFile (some reads) buf size = (got, some text.length) ∧ cstr got = text := by
  obtain ⟨hcount, hbuf⟩ := procReadFile_contents h buf size
  rw [CStr.cut_eq_self (Nat.le_sub_one_of_lt hlen)] at hbuf
  rw [List.take_of_length_le (Nat.le_sub_one_of_lt hlen)] at hcount
  exact ⟨_, Prod.ext rfl hcount, hbuf⟩

end Qmem
