import Qmem.Lib.CStr

/-!
# The history (`daemon/ringbuffer.c`)

A circular array of texts. `calloc` and `malloc` may fail; where the capacity is 0 the C code
divides by it, and nothing is said about that here.
-/

namespace Qmem

open CLib

/-- `ringbuf_entry_t`; `data` is `none` for NULL. -/
structure RingbufEntry where
  timestamp : Int64
  data : Option Bytes
  size : Nat

/-- `ringbuf_t`. -/
structure Ringbuf where
  entries : List RingbufEntry
  capacity : Nat
  head : Nat
  count : Nat

def emptyEntry : RingbufEntry where
  timestamp := 0
  data := none
  size := 0

/-- `ringbuf_create`, where the allocations succeed. -/
def ringbufCreate (capacity : Nat) : Ringbuf where
  entries := List.replicate capacity emptyEntry
  capacity := capacity
  head := 0
  count := 0

/-- `ringbuf_push` of the first `size` bytes of `data`, at the time `now`; the old entry is freed
before `malloc` is tried. -/
def ringbufPush (rb : Ringbuf) (data : Bytes) (size : Nat) (mallocOk : Bool) (now : Int64) :
    Ringbuf × Int32 :=
  if mallocOk then
    ({ rb with
      entries := rb.entries.set rb.head {
        timestamp := now, data := some (data.take size ++ [0]), size := size }
      head := (rb.head + 1) % rb.capacity
      count := if rb.count < rb.capacity then rb.count + 1 else rb.count }, 0)
  else
    ({ rb with
      entries := rb.entries.modify rb.head fun entry => { entry with data := none } }, -1)

def ringbufGet (rb : Ringbuf) (index : Int) : Option RingbufEntry :=
  if index < 0 ∨ index ≥ rb.count then none
  else rb.entries[((rb.head - rb.count + index + rb.capacity) % rb.capacity).toNat]?

/-- The newest entry has index 0. -/
def ringbufGetRecent (rb : Ringbuf) (index : Int) : Option RingbufEntry :=
  if index < 0 ∨ index ≥ rb.count then none
  else rb.entries[((rb.head - 1 - index + rb.capacity) % rb.capacity).toNat]?

def ringbufCount (rb : Ringbuf) : Nat := rb.count

/-- `ringbuf_clear`: the data goes, the sizes stay. -/
def ringbufClear (rb : Ringbuf) : Ringbuf where
  entries := rb.entries.map fun entry => { entry with data := none }
  capacity := rb.capacity
  head := 0
  count := 0

/-- What every operation keeps. -/
structure Ringbuf.Valid (rb : Ringbuf) : Prop where
  entries_length : rb.entries.length = rb.capacity
  head_lt : rb.head < rb.capacity
  count_le : rb.count ≤ rb.capacity

theorem Ringbuf.valid_create {capacity : Nat} (h : 1 ≤ capacity) :
    (ringbufCreate capacity).Valid where
  entries_length := by simp [ringbufCreate]
  head_lt := h
  count_le := Nat.zero_le _

theorem Ringbuf.Valid.push {rb : Ringbuf} (h : rb.Valid) (data : Bytes) (size : Nat)
    (mallocOk : Bool) (now : Int64) : (ringbufPush rb data size mallocOk now).1.Valid := by
  have hpos : 0 < rb.capacity := by have := h.head_lt; omega
  unfold ringbufPush
  split
  · refine ⟨by simpa using h.entries_length, Nat.mod_lt _ hpos, ?_⟩
    show (if rb.count < rb.capacity then rb.count + 1 else rb.count) ≤ rb.capacity
    split
    · omega
    · exact h.count_le
  · exact ⟨by simpa using h.entries_length, h.head_lt, h.count_le⟩

/-- A push that finds memory puts its text in front. -/
theorem Ringbuf.Valid.recent_push {rb : Ringbuf} (h : rb.Valid) (data : Bytes) (size : Nat)
    (now : Int64) :
    ringbufGetRecent (ringbufPush rb data size true now).1 0 =
      some { timestamp := now, data := some (data.take size ++ [0]), size := size } := by
  have hhead := h.head_lt
  have hcount : ¬ ((0 : Int) < 0 ∨
      (0 : Int) ≥ ((if rb.count < rb.capacity then rb.count + 1 else rb.count : Nat) : Int)) := by
    split <;> omega
  have hindex : ((((rb.head + 1) % rb.capacity : Nat) - 1 - 0 + rb.capacity : Int) %
      rb.capacity).toNat = rb.head := by
    by_cases hwrap : rb.head + 1 = rb.capacity
    · rw [hwrap, Nat.mod_self]
      have hlast : ((0 : Nat) - 1 - 0 + rb.capacity : Int) = rb.head := by omega
      rw [hlast, Int.emod_eq_of_lt (by omega) (by omega)]
      exact Int.toNat_natCast _
    · rw [Nat.mod_eq_of_lt (by omega)]
      have hnext : (((rb.head + 1 : Nat) : Int) - 1 - 0 + rb.capacity) =
          rb.head + rb.capacity := by omega
      rw [hnext, Int.add_emod_right, Int.emod_eq_of_lt (by omega) (by omega)]
      exact Int.toNat_natCast _
  simp only [ringbufPush, if_true, ringbufGetRecent, if_neg hcount, hindex]
  rw [List.getElem?_set_self (by rw [h.entries_length]; exact hhead)]

end Qmem
