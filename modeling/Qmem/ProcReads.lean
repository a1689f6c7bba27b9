import Qmem.Lib.Endless
import Qmem.ProcLeftovers

/-!
# The calls of `read`

`proc_read_file` in the numbers of the machine, one turn of its loop for each call of `read`, which
may be interrupted and may read less than it is asked for. Behind the buffer there is other memory.

Main result: `reads_first_bytes`.
-/

namespace Qmem

open CLib

/-! ## The loop -/

/-- `proc_read_file` between two turns of its loop. -/
structure ReadState where
  /-- What `buf` points to: the buffer and what is behind it. -/
  mem : Bytes
  total : Int64
  /-- How far the system is in the file. -/
  offset : Nat
  returned : Option Int64

namespace ReadState

/-- `buf[total] = '\0'; return total;` -/
def finish (s : ReadState) : ReadState :=
  { s with mem := memcpy s.mem s.total.toUInt64.toNat [0], returned := some s.total }

/-- How many bytes `read` is asked for. -/
def count (size : UInt64) (s : ReadState) : UInt64 := size - 1 - s.total.toUInt64

/-- The next turn calls `read`. -/
def Calls (size : UInt64) (s : ReadState) : Prop :=
  s.returned = none ∧ s.total.toUInt64 < size - 1

end ReadState

/-- In front of the loop. -/
def procReadStart (opened : Bool) (mem : Bytes) : ReadState :=
  { mem, total := 0, offset := 0, returned := if opened then none else some (-1) }

/-- One turn of the loop, where `read` returns `r` if it is called. -/
def procReadTurn (size : UInt64) (s : ReadState) (r : ReadResult) : ReadState :=
  if s.returned = none then
    if s.total.toUInt64 < size - 1 then
      match r with
      | .eintr => s
      | .error => { s with returned := some (-1) }
      | .data piece =>
        if piece.length = 0 then s.finish
        else { s with
          mem := memcpy s.mem s.total.toUInt64.toNat piece
          total := s.total + Int64.ofNat piece.length
          offset := s.offset + piece.length }
    else s.finish
  else s

/-- `proc_read_file` on a file that could be opened, behind `k` turns. -/
abbrev procReadRun (size : UInt64) (mem : Bytes) (reads : Stream' ReadResult) (k : Nat) :
    ReadState :=
  Run.after (procReadTurn size) (procReadStart true mem) reads k

/-- What `read` may return when it is asked for so many bytes and `rest` is still to be read: an
error, or a part of it, which is empty only at the end of the file. -/
inductive MayReturn (rest : Bytes) (count : UInt64) : ReadResult → Prop where
  | data {piece : Bytes} : piece <+: rest → piece.length ≤ count.toNat →
      (piece = [] → rest = [] ∨ count = 0) → MayReturn rest count (.data piece)
  | eintr : MayReturn rest count .eintr
  | error : MayReturn rest count .error

/-- The calls of `read` return what they may on a file with these contents. -/
def ReadsOf (text : Bytes) (size : UInt64) (mem : Bytes) (reads : Stream' ReadResult) : Prop :=
  ∀ k, (procReadRun size mem reads k).Calls size →
    MayReturn (text.drop (procReadRun size mem reads k).offset)
      ((procReadRun size mem reads k).count size) (reads.get k)

section

variable {size : UInt64} {s : ReadState}

theorem procReadTurn_returned {ret : Int64} (h : s.returned = some ret) (r : ReadResult) :
    procReadTurn size s r = s :=
  if_neg fun hnone => Option.some_ne_none ret (h.symm.trans hnone)

theorem procReadTurn_full (hret : s.returned = none) (hfull : ¬s.total.toUInt64 < size - 1)
    (r : ReadResult) : procReadTurn size s r = s.finish := (if_pos hret).trans (if_neg hfull)

theorem procReadTurn_eintr (h : s.Calls size) : procReadTurn size s .eintr = s := by
  rw [procReadTurn, if_pos h.1, if_pos h.2]

theorem procReadTurn_error (h : s.Calls size) :
    procReadTurn size s .error = { s with returned := some (-1) } := by
  rw [procReadTurn, if_pos h.1, if_pos h.2]

theorem procReadTurn_end (h : s.Calls size) : procReadTurn size s (.data []) = s.finish := by
  rw [procReadTurn, if_pos h.1, if_pos h.2]
  rfl

theorem procReadTurn_data (h : s.Calls size) {piece : Bytes} (hne : piece ≠ []) :
    procReadTurn size s (.data piece) = { s with
      mem := memcpy s.mem s.total.toUInt64.toNat piece
      total := s.total + Int64.ofNat piece.length
      offset := s.offset + piece.length } := by
  rw [procReadTurn, if_pos h.1, if_pos h.2]
  exact if_neg fun hlen => hne (List.length_eq_zero_iff.1 hlen)

end

/-! ## What a turn does -/

namespace ReadState

/-- So much of a file with this text is in the buffer, which was `mem` before. -/
structure Reading (text mem : Bytes) (size : UInt64) (s : ReadState) : Prop where
  running : s.returned = none
  in_file : s.offset ≤ text.length
  in_buffer : s.offset < size.toNat
  total_eq : s.total = Int64.ofNat s.offset
  mem_eq : s.mem = memcpy mem 0 (text.take s.offset)

/-- As much of the text as fits is in the buffer, with its NUL. -/
structure Done (text mem : Bytes) (size : UInt64) (s : ReadState) : Prop where
  returned : s.returned = some (Int64.ofNat (text.take (size.toNat - 1)).length)
  mem_eq : s.mem = memcpy mem 0 (text.take (size.toNat - 1) ++ [0])

/-- A part of it is there, without a NUL. -/
structure Failed (text mem : Bytes) (size : UInt64) (s : ReadState) : Prop where
  returned : s.returned = some (-1)
  mem_eq : ∃ n < size.toNat, s.mem = memcpy mem 0 (text.take n)

variable {text mem : Bytes} {size : UInt64} {s : ReadState}

theorem Done.returns (h : Done text mem size s) : s.returned ≠ none :=
  Option.ne_none_iff_exists'.2 ⟨_, h.returned⟩

theorem Failed.returns (h : Failed text mem size s) : s.returned ≠ none :=
  Option.ne_none_iff_exists'.2 ⟨_, h.returned⟩

theorem Reading.start (hsize : 1 ≤ size) (text mem : Bytes) :
    Reading text mem size (procReadStart true mem) where
  running := rfl
  in_file := Nat.zero_le _
  in_buffer := UInt64.le_iff_toNat_le.1 hsize
  total_eq := rfl
  mem_eq := (memcpy_nil mem 0).symm

theorem Reading.toNat_total (h : Reading text mem size s) : s.total.toUInt64.toNat = s.offset := by
  rw [h.total_eq, Int64.toUInt64_ofNat']
  exact UInt64.toNat_ofNat_of_lt' (h.in_buffer.trans size.toNat_lt)

theorem Reading.toNat_last (h : Reading text mem size s) :
    (size - 1).toNat = size.toNat - 1 := by
  have hpos : 1 ≤ size.toNat := Nat.lt_of_le_of_lt (Nat.zero_le _) h.in_buffer
  exact UInt64.toNat_sub_of_le _ _ (UInt64.le_iff_toNat_le.2 hpos)

theorem Reading.lt_last_iff (h : Reading text mem size s) :
    s.total.toUInt64 < size - 1 ↔ s.offset < size.toNat - 1 := by
  rw [UInt64.lt_iff_toNat_lt, h.toNat_total, h.toNat_last]

/-- The remaining space does not wrap around. -/
theorem Reading.toNat_count (h : Reading text mem size s) :
    (s.count size).toNat = size.toNat - 1 - s.offset := by
  have hbuffer := h.in_buffer
  have hle : s.total.toUInt64 ≤ size - 1 := by
    rw [UInt64.le_iff_toNat_le, h.toNat_total, h.toNat_last]
    omega
  rw [count, UInt64.toNat_sub_of_le _ _ hle, h.toNat_total, h.toNat_last]

/-- Bytes stored at `total` come behind those that are there. -/
theorem Reading.memcpy_total (h : Reading text mem size s) (more : Bytes) :
    memcpy s.mem s.total.toUInt64.toNat more = memcpy mem 0 (text.take s.offset ++ more) := by
  have hlen : 0 + (text.take s.offset).length = s.offset := by
    rw [Nat.zero_add, List.length_take_of_le h.in_file]
  have happend := memcpy_append (Nat.zero_le mem.length) (text.take s.offset) more
  rw [h.toNat_total]
  rwa [hlen, ← h.mem_eq] at happend

/-- The loop ends where all there is or all that fits has been read. -/
theorem Reading.finish (h : Reading text mem size s)
    (hall : s.offset = min text.length (size.toNat - 1)) : Done text mem size s.finish := by
  have htake : text.take (size.toNat - 1) = text.take s.offset := by
    rw [hall, List.take_eq_take_iff]
    omega
  refine ⟨?_, ?_⟩
  · rw [htake, List.length_take_of_le h.in_file, ← h.total_eq]
    rfl
  · rw [htake]
    exact h.memcpy_total [0]

theorem Reading.fail (h : Reading text mem size s) :
    Failed text mem size { s with returned := some (-1) } :=
  ⟨rfl, s.offset, h.in_buffer, h.mem_eq⟩

theorem Reading.data (h : Reading text mem size s) (hcalls : s.Calls size) {piece : Bytes}
    (hfront : piece <+: text.drop s.offset) (hcount : piece.length ≤ (s.count size).toNat) :
    Reading text mem size { s with
      mem := memcpy s.mem s.total.toUInt64.toNat piece
      total := s.total + Int64.ofNat piece.length
      offset := s.offset + piece.length } := by
  have hroom := h.lt_last_iff.1 hcalls.2
  have hlen := hfront.length_le
  rw [h.toNat_count] at hcount
  rw [List.length_drop] at hlen
  have hfile := h.in_file
  exact {
    running := h.running
    in_file := by show s.offset + piece.length ≤ text.length; omega
    in_buffer := by show s.offset + piece.length < size.toNat; omega
    total_eq := by
      show s.total + Int64.ofNat piece.length = Int64.ofNat (s.offset + piece.length)
      rw [Int64.ofNat_add, h.total_eq]
    mem_eq := by
      show memcpy s.mem s.total.toUInt64.toNat piece =
        memcpy mem 0 (text.take (s.offset + piece.length))
      rw [h.memcpy_total, List.take_add, ← List.prefix_iff_eq_take.1 hfront] }

/-- What the caller finds at the front. -/
theorem Done.take_mem (h : Done text mem size s) :
    s.mem.take (min text.length (size.toNat - 1) + 1) =
      text.take (min text.length (size.toNat - 1)) ++ [0] := by
  set n := min text.length (size.toNat - 1)
  have htake : text.take (size.toNat - 1) = text.take n := by
    rw [List.take_eq_take_min, Nat.min_comm]
  have hlen : (text.take n).length = n := List.length_take_of_le (Nat.min_le_left _ _)
  have hfront : (memcpy mem 0 (text.take n ++ [0])).take (0 + (text.take n ++ [0]).length) =
      mem.take 0 ++ (text.take n ++ [0]) := take_memcpy (Nat.zero_le _)
  rw [List.length_append, hlen, List.length_singleton, Nat.zero_add, ← htake, ← h.mem_eq] at hfront
  rw [hfront, htake]
  rfl

/-- **One turn** of the loop goes on, with more of the file if it is not interrupted; or it has all
that it can get; or a call of `read` fails. -/
theorem Reading.turn (h : Reading text mem size s) {r : ReadResult}
    (hr : s.Calls size → MayReturn (text.drop s.offset) (s.count size) r) :
    Reading text mem size (procReadTurn size s r) ∧
        (s.Calls size ∧ r = .eintr ∨ s.offset < (procReadTurn size s r).offset) ∨
      Done text mem size (procReadTurn size s r) ∨
      (s.Calls size ∧ r = .error) ∧ Failed text mem size (procReadTurn size s r) := by
  have hfile := h.in_file
  have hbuffer := h.in_buffer
  by_cases hroom : s.total.toUInt64 < size - 1
  · have hcalls : s.Calls size := ⟨h.running, hroom⟩
    cases hr hcalls with
    | eintr =>
      rw [procReadTurn_eintr hcalls]
      exact .inl ⟨h, .inl ⟨hcalls, rfl⟩⟩
    | error =>
      rw [procReadTurn_error hcalls]
      exact .inr (.inr ⟨⟨hcalls, rfl⟩, h.fail⟩)
    | @data piece hfront hcount hend =>
      by_cases hnone : piece = []
      · -- nothing is returned at the end of the file only, as something was asked for
        have hcountPos : 0 < (s.count size).toNat := by
          rw [h.toNat_count]
          have hlt := h.lt_last_iff.1 hroom
          omega
        have hrest : text.drop s.offset = [] := (hend hnone).resolve_right fun hzero => by
          rw [hzero] at hcountPos
          exact absurd hcountPos (Nat.lt_irrefl 0)
        rw [hnone, procReadTurn_end hcalls]
        refine .inr (.inl (h.finish ?_))
        have hle := List.drop_eq_nil_iff.1 hrest
        omega
      · rw [procReadTurn_data hcalls hnone]
        refine .inl ⟨h.data hcalls hfront hcount, .inr ?_⟩
        exact Nat.lt_add_of_pos_right (List.length_pos_of_ne_nil hnone)
  · rw [procReadTurn_full h.running hroom]
    refine .inr (.inl (h.finish ?_))
    rw [h.lt_last_iff] at hroom
    omega

end ReadState

/-! ## Whole runs -/

section

variable {text mem : Bytes} {size : UInt64} {reads : Stream' ReadResult}

open ReadState

theorem procReadRun_succ (k : Nat) : procReadRun size mem reads (k + 1) =
    procReadTurn size (procReadRun size mem reads k) (reads.get k) := Run.after_succ _ _ _ k

/-- What has been returned stays. -/
theorem procReadRun_stable {k j : Nat} {ret : Int64}
    (h : (procReadRun size mem reads k).returned = some ret) (hj : k ≤ j) :
    procReadRun size mem reads j = procReadRun size mem reads k :=
  Run.after_stable (fun r => procReadTurn_returned h r) hj

/-- Behind `k` turns; if the function has failed, it was because a call did. -/
theorem procReadRun_state (hsize : 1 ≤ size) (hreads : ReadsOf text size mem reads) (k : Nat) :
    Reading text mem size (procReadRun size mem reads k) ∨
      Done text mem size (procReadRun size mem reads k) ∨
      (∃ j, (procReadRun size mem reads j).Calls size ∧ reads.get j = .error) ∧
        Failed text mem size (procReadRun size mem reads k) := by
  induction k with
  | zero => exact .inl (Reading.start hsize text mem)
  | succ k ih =>
    rw [procReadRun_succ]
    obtain h | h | ⟨herror, h⟩ := ih
    · obtain ⟨hnext, -⟩ | hdone | ⟨herror, hfailed⟩ := h.turn (hreads k)
      · exact .inl hnext
      · exact .inr (.inl hdone)
      · exact .inr (.inr ⟨⟨k, herror⟩, hfailed⟩)
    · rw [procReadTurn_returned h.returned]
      exact .inr (.inl h)
    · rw [procReadTurn_returned h.returned]
      exact .inr (.inr ⟨herror, h⟩)

/-- While nothing has been returned, the loop is reading. -/
theorem procReadRun_reading (hsize : 1 ≤ size) (hreads : ReadsOf text size mem reads) {k : Nat}
    (hnone : (procReadRun size mem reads k).returned = none) :
    Reading text mem size (procReadRun size mem reads k) := by
  obtain h | h | ⟨-, h⟩ := procReadRun_state hsize hreads k
  · exact h
  · exact absurd hnone h.returns
  · exact absurd hnone h.returns

theorem procReadRun_done (hsize : 1 ≤ size) (hreads : ReadsOf text size mem reads)
    (hok : ∀ k, (procReadRun size mem reads k).Calls size → reads.get k ≠ .error) {k : Nat}
    (hret : (procReadRun size mem reads k).returned ≠ none) :
    Done text mem size (procReadRun size mem reads k) := by
  obtain h | h | ⟨⟨j, hcalls, herror⟩, -⟩ := procReadRun_state hsize hreads k
  · exact absurd h.running hret
  · exact h
  · exact absurd herror (hok j hcalls)

/-- A call that fails. -/
theorem procReadRun_failed {k : Nat} (hcalls : (procReadRun size mem reads k).Calls size)
    (herror : reads.get k = .error) {j : Nat} (hj : k < j) :
    (procReadRun size mem reads j).returned = some (-1) := by
  have hnext : (procReadRun size mem reads (k + 1)).returned = some (-1) := by
    rw [procReadRun_succ, herror, procReadTurn_error hcalls]
  rw [procReadRun_stable hnext hj, hnext]

/-- A file that cannot be opened. -/
theorem procReadStart_unopened (size : UInt64) (mem : Bytes) (reads : Stream' ReadResult)
    (k : Nat) :
    Run.after (procReadTurn size) (procReadStart false mem) reads k = procReadStart false mem :=
  Run.after_stable (fun r => procReadTurn_returned rfl r) (Nat.zero_le k)

/-- **The loop ends** if `read` is interrupted finitely often. -/
theorem procReadRun_returns (hsize : 1 ≤ size) (hreads : ReadsOf text size mem reads)
    (hintr : {k | (procReadRun size mem reads k).Calls size ∧ reads.get k = .eintr}.Finite) :
    ∃ k, (procReadRun size mem reads k).returned ≠ none := by
  have hreading {k : Nat} (h : ¬(procReadRun size mem reads k).returned ≠ none) :
      Reading text mem size (procReadRun size mem reads k) :=
    procReadRun_reading hsize hreads (not_not.1 h)
  refine Run.after_stops (fun s r => s.Calls size ∧ r = .eintr) (fun s => s.returned ≠ none)
    offset size.toNat (fun k h => (hreading h).in_buffer.le) (fun k h hidle => ?_) hintr
  have hbefore : ¬(procReadRun size mem reads k).returned ≠ none := fun hreturns => by
    obtain ⟨ret, hret⟩ := Option.ne_none_iff_exists'.1 hreturns
    rw [← procReadRun, procReadRun_stable hret k.le_succ] at h
    exact h hreturns
  have hafter := (hreading h).running
  rw [procReadRun_succ] at hafter
  rw [Run.after_succ]
  obtain ⟨-, hintr | hmore⟩ | hdone | ⟨-, hfailed⟩ := (hreading hbefore).turn (hreads k)
  · exact absurd hintr hidle
  · exact hmore
  · exact absurd hafter hdone.returns
  · exact absurd hafter hfailed.returns

/-- Without that it may go on for ever. -/
theorem procReadRun_interrupted (hsize : 2 ≤ size) (hreads : ∀ k, reads.get k = .eintr) (k : Nat) :
    procReadRun size mem reads k = procReadStart true mem := by
  have hroom : (0 : Int64).toUInt64 < size - 1 := by
    have hle := UInt64.le_iff_toNat_le.1 hsize
    have hone : (1 : UInt64) ≤ size := UInt64.le_iff_toNat_le.2 (Nat.le_of_succ_le hle)
    rw [UInt64.lt_iff_toNat_lt, UInt64.toNat_sub_of_le _ _ hone]
    exact Nat.sub_pos_of_lt hle
  induction k with
  | zero => rfl
  | succ k ih =>
    rw [procReadRun_succ, ih, hreads]
    exact procReadTurn_eintr ⟨rfl, hroom⟩

/-! ## The buffer -/

/-- What is stored at the front of a buffer does not change what is behind it. -/
theorem memcpy_front {buf src : Bytes} (h : src.length ≤ buf.length) (beyond : Bytes) :
    memcpy (buf ++ beyond) 0 src = memcpy buf 0 src ++ beyond := by
  simp only [memcpy, List.take_zero, List.nil_append, Nat.zero_add, List.append_assoc]
  rw [List.drop_append_of_le_length h]

/-- Whatever has been stored starts at the front and fits. -/
theorem procReadRun_stored (hsize : 1 ≤ size) (hreads : ReadsOf text size mem reads) (k : Nat) :
    ∃ src : Bytes, src.length ≤ size.toNat ∧
      (procReadRun size mem reads k).mem = memcpy mem 0 src := by
  have hpos : 1 ≤ size.toNat := UInt64.le_iff_toNat_le.1 hsize
  have hshort (n : Nat) (hn : n < size.toNat) : (text.take n).length < size.toNat :=
    Nat.lt_of_le_of_lt (List.length_take_le n text) hn
  obtain h | h | ⟨-, h⟩ := procReadRun_state hsize hreads k
  · exact ⟨_, (hshort _ h.in_buffer).le, h.mem_eq⟩
  · refine ⟨_, ?_, h.mem_eq⟩
    rw [List.length_append]
    exact hshort _ (Nat.sub_lt hpos Nat.one_pos)
  · obtain ⟨n, hn, hmem⟩ := h.mem_eq
    exact ⟨_, (hshort n hn).le, hmem⟩

/-- No call of `read` is given more than what is left of the buffer for its NUL. -/
theorem procReadRun_window (hsize : 1 ≤ size) (hreads : ReadsOf text size mem reads) {k : Nat}
    (hcalls : (procReadRun size mem reads k).Calls size) :
    (procReadRun size mem reads k).total.toUInt64.toNat +
      ((procReadRun size mem reads k).count size).toNat < size.toNat := by
  have h := procReadRun_reading hsize hreads hcalls.1
  have hbuffer := h.in_buffer
  rw [h.toNat_total, h.toNat_count]
  omega

end

/-! ## The results in a row -/

/-- What a caller makes of the result: -1 or a length. -/
def readLength (ret : Int64) : Option Nat := if ret = -1 then none else some ret.toUInt64.toNat

section

variable {text mem : Bytes} {size : UInt64} {reads : Stream' ReadResult}

theorem ReadState.Reading.readLength_total {s : ReadState} (h : Reading text mem size s) :
    readLength s.total = some s.offset := by
  have hne : s.total ≠ -1 := fun hminus => by
    have htotal := h.toNat_total
    have hbuffer := h.in_buffer
    have hmax := size.toNat_lt
    rw [hminus] at htotal
    have hall : (-1 : Int64).toUInt64.toNat = 2 ^ 64 - 1 := by decide
    omega
  rw [readLength, if_neg hne, h.toNat_total]

/-- A turn is one result less for `procReadLoop`, or its last. -/
theorem ReadState.Reading.loop_turn {s : ReadState} (h : Reading text mem size s) {r : ReadResult}
    (hr : s.Calls size → MayReturn (text.drop s.offset) (s.count size) r) {s' : ReadState}
    (hturn : s' = procReadTurn size s r) (rs : List ReadResult) :
    procReadLoop size.toNat (r :: rs) s.mem s.offset =
      match s'.returned with
      | none => procReadLoop size.toNat rs s'.mem s'.offset
      | some ret => (s'.mem, readLength ret) := by
  subst hturn
  have hfinish : (memcpy s.mem s.offset [0], some s.offset) =
      (s.finish.mem, readLength s.total) := by
    rw [h.readLength_total, ReadState.finish, h.toNat_total]
  by_cases hroom : s.total.toUInt64 < size - 1
  · have hcalls : s.Calls size := ⟨h.running, hroom⟩
    have hlt := h.lt_last_iff.1 hroom
    cases hr hcalls with
    | eintr => rw [procReadTurn_eintr hcalls, procReadLoop, if_pos hlt, h.running]
    | error =>
      rw [procReadTurn_error hcalls, procReadLoop, if_pos hlt]
      rfl
    | @data piece _ hcount _ =>
      have hpiece : piece.take (size.toNat - 1 - s.offset) = piece :=
        List.take_of_length_le (by rwa [← h.toNat_count])
      rw [procReadLoop, if_pos hlt]
      simp only [hpiece]
      by_cases hnone : piece = []
      · rw [if_pos (List.length_eq_zero_iff.2 hnone), hnone, procReadTurn_end hcalls]
        exact hfinish
      · rw [if_neg fun hlen => hnone (List.length_eq_zero_iff.1 hlen),
          procReadTurn_data hcalls hnone, h.running, h.toNat_total]
  · rw [procReadLoop_full (Nat.le_of_not_lt fun hlt => hroom (h.lt_last_iff.2 hlt)),
      procReadTurn_full h.running hroom]
    exact hfinish

theorem procReadLoop_run (hsize : 1 ≤ size) (hreads : ReadsOf text size mem reads) (d : Nat)
    {j : Nat} {ret : Int64}
    (h : ReadState.Reading text mem size (procReadRun size mem reads j))
    (hret : (procReadRun size mem reads (j + d)).returned = some ret) :
    procReadLoop size.toNat ((reads.drop j).take d) (procReadRun size mem reads j).mem
        (procReadRun size mem reads j).offset =
      ((procReadRun size mem reads (j + d)).mem, readLength ret) := by
  induction d generalizing j with
  | zero => exact absurd (h.running.symm.trans hret) nofun
  | succ d ih =>
    have hlist : (reads.drop j).take (d + 1) = reads.get j :: (reads.drop (j + 1)).take d := by
      simp [Stream'.take_succ]
    have hlater : j + (d + 1) = j + 1 + d := by omega
    rw [hlater] at hret
    rw [hlist, hlater, h.loop_turn (hreads j) (procReadRun_succ j)]
    cases hnext : (procReadRun size mem reads (j + 1)).returned with
    | none => exact ih (procReadRun_reading hsize hreads hnext) hret
    | some ret' =>
      have hstable := procReadRun_stable hnext (Nat.le_add_right _ d)
      rw [hstable, hnext] at hret
      rw [hstable, Option.some.inj hret]

/-- A run is what `procReadFile` makes of the results that it has seen. -/
theorem procReadFile_run (hsize : 1 ≤ size) (hreads : ReadsOf text size mem reads) {k : Nat}
    {ret : Int64} (hret : (procReadRun size mem reads k).returned = some ret) :
    procReadFile (some (reads.take k)) mem size.toNat =
      ((procReadRun size mem reads k).mem, readLength ret) := by
  have hstart := ReadState.Reading.start hsize text mem
  have hrun := procReadLoop_run (j := 0) hsize hreads k hstart (by rwa [Nat.zero_add])
  rwa [Nat.zero_add] at hrun

end

/-! ## The result -/

/-- **`proc_read_file` reads the first bytes of a file**, as many as there are or as fit with a NUL
behind them, in whatever pieces and with whatever interruptions, and returns their number; but -1 if
a call fails. It stays inside the buffer even while it is reading. A result is an `ssize_t`, and the
buffers that there can be have less than 2 ^ 63 bytes. -/
theorem reads_first_bytes {size : UInt64} (hsize : 1 ≤ size) (text buf beyond : Bytes)
    (hbuf : buf.length = size.toNat) {reads : Stream' ReadResult}
    (hreads : ReadsOf text size (buf ++ beyond) reads) :
    let run := procReadRun size (buf ++ beyond) reads
    let n := min text.length (size.toNat - 1)
    ((∀ k, (run k).Calls size → reads.get k ≠ .error) →
      ∀ k ret, (run k).returned = some ret →
        ret = Int64.ofNat n ∧ (size.toNat ≤ 2 ^ 63 → ret.toInt = n) ∧
          (run k).mem.take (n + 1) = text.take n ++ [0]) ∧
    (∀ k, (run k).Calls size → reads.get k = .error →
      ∀ j, k < j → (run j).returned = some (-1)) ∧
    ({k | (run k).Calls size ∧ reads.get k = .eintr}.Finite → ∃ k, (run k).returned ≠ none) ∧
    ∀ k, (∃ buf' : Bytes, buf'.length = size.toNat ∧ (run k).mem = buf' ++ beyond) ∧
      ((run k).Calls size →
        (run k).total.toUInt64.toNat + ((run k).count size).toNat < size.toNat) := by
  intro run n
  refine ⟨fun hok k ret hret => ?_, fun k hcalls herror j hj => ?_, fun hintr => ?_, fun k => ?_⟩
  · have hdone : ReadState.Done text (buf ++ beyond) size (run k) :=
      procReadRun_done hsize hreads hok (Option.ne_none_iff_exists'.2 ⟨ret, hret⟩)
    have hlen : (text.take (size.toNat - 1)).length = n := by
      rw [List.length_take, Nat.min_comm]
    have hn : ret = Int64.ofNat n := by
      rw [← hlen]
      exact Option.some.inj (hret.symm.trans hdone.returned)
    refine ⟨hn, fun hfits => ?_, ?_⟩
    · rw [hn]
      refine Int64.toInt_ofNat_of_lt (Nat.lt_of_le_of_lt (Nat.min_le_right _ _) ?_)
      have hpos : 1 ≤ size.toNat := UInt64.le_iff_toNat_le.1 hsize
      omega
    · exact hdone.take_mem
  · exact procReadRun_failed hcalls herror hj
  · exact procReadRun_returns hsize hreads hintr
  · obtain ⟨src, hsrc, hmem⟩ := procReadRun_stored hsize hreads k
    refine ⟨⟨memcpy buf 0 src, ?_, ?_⟩, procReadRun_window hsize hreads⟩
    · rw [memcpy_length (by rwa [Nat.zero_add, hbuf]), hbuf]
    · rw [← memcpy_front (by rwa [hbuf])]
      exact hmem

/-- "abcd" in two pieces, each behind an interruption; the error is not seen any more. -/
def interruptedReads : Stream' ReadResult :=
  [.eintr, .data [0x61], .eintr, .data [0x62, 0x63]] ++ₛ Stream'.const .error

theorem interruptedReads_calls {k : Nat}
    (h : (procReadRun 4 [0xff, 0xff, 0xff, 0xff, 0x2a] interruptedReads k).Calls 4) : k < 4 := by
  by_contra hk
  obtain hk | hk := (Nat.le_of_not_lt hk).eq_or_lt
  · subst hk
    exact absurd h.2 (by decide)
  · have hreturned : (procReadRun 4 [0xff, 0xff, 0xff, 0xff, 0x2a] interruptedReads 5).returned =
        some 3 := by decide
    rw [procReadRun_stable hreturned hk] at h
    exact absurd (h.1.symm.trans hreturned) nofun

theorem interruptedReads_readsOf : ReadsOf [0x61, 0x62, 0x63, 0x64] 4
    [0xff, 0xff, 0xff, 0xff, 0x2a] interruptedReads := by
  intro k hcalls
  have hk := interruptedReads_calls hcalls
  interval_cases k
  · exact .eintr
  · exact .data ⟨[0x62, 0x63, 0x64], rfl⟩ (by decide) (by decide)
  · exact .eintr
  · exact .data ⟨[0x64], rfl⟩ (by decide) (by decide)

theorem reads_first_bytes_interrupted :
    let run := procReadRun 4 [0xff, 0xff, 0xff, 0xff, 0x2a] interruptedReads
    (∃ k, (run k).returned ≠ none) ∧ ∀ k ret, (run k).returned = some ret →
      ret = 3 ∧ (run k).mem.take 4 = [0x61, 0x62, 0x63, 0] := by
  intro run
  have hsize : (1 : UInt64) ≤ 4 := by decide
  obtain ⟨hread, -, hends, -⟩ := reads_first_bytes hsize [0x61, 0x62, 0x63, 0x64]
    [0xff, 0xff, 0xff, 0xff] [0x2a] rfl interruptedReads_readsOf
  have hok (k : Nat) (hcalls : (run k).Calls 4) : interruptedReads.get k ≠ .error := by
    have hk := interruptedReads_calls hcalls
    intro herror
    interval_cases k <;> exact ReadResult.noConfusion herror
  refine ⟨hends ?_, fun k ret hret => ?_⟩
  · exact (Set.finite_lt_nat 4).subset fun k h => interruptedReads_calls h.1
  · obtain ⟨hcount, -, hmem⟩ := hread hok k ret hret
    exact ⟨hcount, hmem⟩

end Qmem
