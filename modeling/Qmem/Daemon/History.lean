import Qmem.Daemon.Ringbuffer
import Qmem.Lib.CInt
import Qmem.Lib.Ring
import Qmem.Lib.Run

/-!
# The history as a list

The operations once more, with the places where C leaves the result undefined: `int` arithmetic
that overflows, a division by zero, an index outside the entries. As long as the capacity is
between 1 and 2 ^ 30 none of this happens, and the buffer is the list of the last items.

Main result: `ringbuf_refines`.
-/

namespace Qmem

open CLib

/-! ## The operations, where they are defined -/

/-- The slot that `ringbuf_get` points to; the inner `none` is NULL. -/
def ringbufGetSlot (rb : Ringbuf) (index : Int) : Option (Option Nat) :=
  if index < 0 ∨ index ≥ rb.count then some none
  else do
    let pos ← asInt (rb.head - rb.count)
    let pos ← asInt (pos + index)
    let pos ← asInt (pos + rb.capacity)
    let pos ← intMod pos rb.capacity
    if 0 ≤ pos ∧ pos < rb.entries.length then some (some pos.toNat) else none

/-- The slot that `ringbuf_get_recent` points to. -/
def ringbufRecentSlot (rb : Ringbuf) (index : Int) : Option (Option Nat) :=
  if index < 0 ∨ index ≥ rb.count then some none
  else do
    let pos ← asInt (rb.head - 1)
    let pos ← asInt (pos - index)
    let pos ← asInt (pos + rb.capacity)
    let pos ← intMod pos rb.capacity
    if 0 ≤ pos ∧ pos < rb.entries.length then some (some pos.toNat) else none

/-- `ringbuf_push`, where it is defined. -/
def ringbufPushDefined (rb : Ringbuf) (data : Bytes) (size : Nat) (mallocOk : Bool)
    (now : Int64) : Option Ringbuf :=
  if rb.head < rb.entries.length then
    if mallocOk then do
      let next ← asInt (rb.head + 1)
      let head ← intMod next rb.capacity
      let count ← (if rb.count < rb.capacity then asInt (rb.count + 1) else some rb.count)
      some { rb with
        entries := rb.entries.set rb.head {
          timestamp := now, data := some (data.take size ++ [0]), size := size }
        head := head.toNat
        count := count.toNat }
    else some (ringbufPush rb data size false now).1
  else none

/-- One operation; `data` is pushed with its length. -/
inductive RingbufOp where
  | push (data : Bytes) (mallocOk : Bool) (now : Int64)
  | clear

def RingbufOp.run (rb : Ringbuf) : RingbufOp → Option Ringbuf
  | .push data mallocOk now => ringbufPushDefined rb data data.length mallocOk now
  | .clear => some (ringbufClear rb)

/-- A buffer with these operations behind it. -/
def ringbufRun (capacity : Nat) (ops : List RingbufOp) : Option Ringbuf :=
  ops.foldlM RingbufOp.run (ringbufCreate capacity)

/-! ## Positions -/

/-- What every sequence of operations keeps, if `n` pushes have found memory since the last
clear. -/
structure Ringbuf.Counts (capacity n : Nat) (rb : Ringbuf) : Prop where
  capacity_eq : rb.capacity = capacity
  entries_length : rb.entries.length = capacity
  head_eq : rb.head = n % capacity
  count_eq : rb.count = min n capacity

/-- How many pushes have found memory since the last clear. -/
def RingbufOp.counted (n : Nat) : RingbufOp → Nat
  | .push _ mallocOk _ => if mallocOk then n + 1 else n
  | .clear => 0

namespace Ringbuf.Counts

variable {capacity n : Nat} {rb : Ringbuf}

theorem create (capacity : Nat) : (ringbufCreate capacity).Counts capacity 0 where
  capacity_eq := rfl
  entries_length := List.length_replicate
  head_eq := (Nat.zero_mod capacity).symm
  count_eq := (Nat.zero_min capacity).symm

variable (hpos : 1 ≤ capacity)

include hpos

theorem head_lt (h : rb.Counts capacity n) : rb.head < capacity := by
  rw [h.head_eq]
  exact Nat.mod_lt _ hpos

/-- Pushing is defined for every capacity that is an `int`. -/
theorem push_defined (h : rb.Counts capacity n) (hmax : capacity < 2 ^ 31) (data : Bytes)
    (size : Nat) (mallocOk : Bool) (now : Int64) :
    ringbufPushDefined rb data size mallocOk now =
      some (ringbufPush rb data size mallocOk now).1 := by
  have hhead := h.head_lt hpos
  have hcount : rb.count ≤ capacity := by
    rw [h.count_eq]
    exact Nat.min_le_right _ _
  rw [ringbufPushDefined, if_pos (by rw [h.entries_length]; exact hhead)]
  cases mallocOk with
  | false => rfl
  | true =>
    have hnext : asInt ((rb.head : Int) + 1) = some ((rb.head : Int) + 1) :=
      asInt_eq (by omega) (by omega)
    have hmod : intMod ((rb.head : Int) + 1) rb.capacity =
        some (((rb.head + 1) % rb.capacity : Nat) : Int) := by
      rw [intMod_eq (by omega) (by rw [h.capacity_eq]; omega), Int.natCast_mod]
      rfl
    have hmore : (if rb.count < rb.capacity then asInt ((rb.count : Int) + 1)
        else some (rb.count : Int)) =
        some ((if rb.count < rb.capacity then rb.count + 1 else rb.count : Nat) : Int) := by
      split
      · case isTrue hless =>
        rw [h.capacity_eq] at hless
        exact asInt_eq (by omega) (by omega)
      · rfl
    simp only [if_true, hnext, hmod, hmore, Option.bind_eq_bind, Option.bind_some,
      Int.toNat_natCast, ringbufPush]

omit hpos in
theorem push (h : rb.Counts capacity n) (data : Bytes) (size : Nat) (mallocOk : Bool)
    (now : Int64) :
    (ringbufPush rb data size mallocOk now).1.Counts capacity
      (RingbufOp.counted n (.push data mallocOk now)) := by
  cases mallocOk with
  | false => exact ⟨h.capacity_eq, by simpa [ringbufPush] using h.entries_length,
      h.head_eq, h.count_eq⟩
  | true =>
    refine ⟨h.capacity_eq, by simpa [ringbufPush] using h.entries_length, ?_, ?_⟩
    · show (rb.head + 1) % rb.capacity = (n + 1) % capacity
      rw [h.head_eq, h.capacity_eq, Nat.mod_add_mod]
    · show (if rb.count < rb.capacity then rb.count + 1 else rb.count) = min (n + 1) capacity
      rw [h.count_eq, h.capacity_eq]
      split <;> omega

omit hpos in
theorem clear (h : rb.Counts capacity n) : (ringbufClear rb).Counts capacity 0 :=
  ⟨h.capacity_eq, by simpa [ringbufClear] using h.entries_length, by simp [ringbufClear],
    by simp [ringbufClear]⟩

theorem step (h : rb.Counts capacity n) (hmax : capacity < 2 ^ 31) (op : RingbufOp) :
    ∃ rb', op.run rb = some rb' ∧ rb'.Counts capacity (op.counted n) := by
  cases op with
  | push data mallocOk now =>
    exact ⟨_, h.push_defined hpos hmax data data.length mallocOk now, h.push data _ mallocOk now⟩
  | clear => exact ⟨_, rfl, h.clear⟩

omit hpos in
/-- Where a sum lands that is some slots and whole turns from 0. -/
theorem land (h : rb.Counts capacity n) {pos q : Int} {k : Nat} (hk : pos = k + capacity * q) :
    pos % (rb.capacity : Int) = ((k % capacity : Nat) : Int) := by
  rw [hk, h.capacity_eq, Int.add_mul_emod_self_left, Int.natCast_mod]

theorem land_defined (h : rb.Counts capacity n) {pos q : Int} {k : Nat} (hle : 0 ≤ pos)
    (hk : pos = k + capacity * q) :
    ((intMod pos rb.capacity).bind fun pos =>
      if 0 ≤ pos ∧ pos < rb.entries.length then some (some pos.toNat) else none) =
      some (some (k % capacity)) := by
  have hslot : k % capacity < capacity := Nat.mod_lt _ hpos
  rw [intMod_eq hle (by rw [h.capacity_eq]; omega), h.land hk, Option.bind_some,
    if_pos (by rw [h.entries_length]; omega), Int.toNat_natCast]

/-- `ringbuf_get_recent` of a live index, where the sum in it is an `int`. -/
theorem recent_slot_of_fits (h : rb.Counts capacity n) (hfits : rb.head + capacity ≤ 2 ^ 31)
    {i : Nat} (hi : i < rb.count) :
    ringbufRecentSlot rb i = some (some ((n - 1 - i) % capacity)) ∧
      ringbufGetRecent rb i = rb.entries[(n - 1 - i) % capacity]? := by
  have hhead := h.head_lt hpos
  have hcount := h.count_eq
  have hcap := h.capacity_eq
  have hlive : ¬ ((i : Int) < 0 ∨ (i : Int) ≥ rb.count) := by omega
  have hturns : (rb.head : Int) - 1 - i + rb.capacity =
      (n - 1 - i : Nat) + capacity * (1 - (n / capacity : Nat)) := by
    have hdiv : (capacity : Int) * (n / capacity : Nat) + (n % capacity : Nat) = n := by
      exact_mod_cast Nat.div_add_mod n capacity
    have hback : ((n - 1 - i : Nat) : Int) = n - 1 - i := by omega
    rw [hback, h.head_eq, h.capacity_eq]
    linarith
  refine ⟨?_, ?_⟩
  · rw [ringbufRecentSlot, if_neg hlive]
    simp only [Option.bind_eq_bind]
    rw [asInt_eq (by omega) (by omega), Option.bind_some, asInt_eq (by omega) (by omega),
      Option.bind_some, asInt_eq (by omega) (by omega), Option.bind_some]
    exact h.land_defined hpos (by omega) hturns
  · rw [ringbufGetRecent, if_neg hlive, h.land hturns, Int.toNat_natCast]

/-- Where it is not, the newest item is already out of reach. -/
theorem recent_slot_overflow (h : rb.Counts capacity n) (hmax : capacity < 2 ^ 31)
    (hover : 2 ^ 31 < rb.head + capacity) (hsome : 0 < rb.count) : ringbufRecentSlot rb 0 = none := by
  have hhead := h.head_lt hpos
  have hcap := h.capacity_eq
  rw [ringbufRecentSlot, if_neg (by omega)]
  simp only [Option.bind_eq_bind]
  rw [asInt_eq (by omega) (by omega), Option.bind_some, asInt_eq (by omega) (by omega),
    Option.bind_some, asInt_overflow (by omega), Option.bind_none]

variable (hmax : capacity ≤ 2 ^ 30) {i : Nat} (hi : i < rb.count)

include hmax hi

/-- `ringbuf_get` of a live index. -/
theorem get_slot (h : rb.Counts capacity n) :
    ringbufGetSlot rb i = some (some ((n - capacity + i) % capacity)) ∧
      ringbufGet rb i = rb.entries[(n - capacity + i) % capacity]? := by
  have hhead := h.head_lt hpos
  have hcount := h.count_eq
  have hcap := h.capacity_eq
  have hlive : ¬ ((i : Int) < 0 ∨ (i : Int) ≥ rb.count) := by omega
  have hturns : (rb.head : Int) - rb.count + i + rb.capacity =
      (n - capacity + i : Nat) + capacity * (1 - (n / capacity : Nat)) := by
    have hdiv : (capacity : Int) * (n / capacity : Nat) + (n % capacity : Nat) = n := by
      exact_mod_cast Nat.div_add_mod n capacity
    have hdrop : ((n - capacity + i : Nat) : Int) = n - rb.count + i := by omega
    rw [hdrop, h.head_eq, h.capacity_eq]
    linarith
  refine ⟨?_, ?_⟩
  · rw [ringbufGetSlot, if_neg hlive]
    simp only [Option.bind_eq_bind]
    rw [asInt_eq (by omega) (by omega), Option.bind_some, asInt_eq (by omega) (by omega),
      Option.bind_some, asInt_eq (by omega) (by omega), Option.bind_some]
    exact h.land_defined hpos (by omega) hturns
  · rw [ringbufGet, if_neg hlive, h.land hturns, Int.toNat_natCast]

/-- `ringbuf_get_recent` of a live index. -/
theorem recent_slot (h : rb.Counts capacity n) :
    ringbufRecentSlot rb i = some (some ((n - 1 - i) % capacity)) ∧
      ringbufGetRecent rb i = rb.entries[(n - 1 - i) % capacity]? := by
  have hhead := h.head_lt hpos
  exact h.recent_slot_of_fits hpos (by omega) hi

end Ringbuf.Counts

theorem ringbufRun_append (capacity : Nat) (ops : List RingbufOp) (op : RingbufOp) :
    ringbufRun capacity (ops ++ [op]) = (ringbufRun capacity ops).bind op.run := by
  simp [ringbufRun, List.foldlM_append]

/-- A whole run: pushing is defined for every capacity that is an `int`. -/
theorem ringbufRun_counts {capacity : Nat} (hpos : 1 ≤ capacity) (hmax : capacity < 2 ^ 31)
    (ops : List RingbufOp) :
    ∃ rb, ringbufRun capacity ops = some rb ∧
      rb.Counts capacity (ops.foldl RingbufOp.counted 0) := by
  induction ops using List.reverseRecOn with
  | nil => exact ⟨_, rfl, .create capacity⟩
  | append_singleton ops op ih =>
    obtain ⟨rb, hrun, hcounts⟩ := ih
    obtain ⟨rb', hstep, hcounts'⟩ := hcounts.step hpos hmax op
    rw [ringbufRun_append, hrun, List.foldl_append]
    exact ⟨rb', hstep, hcounts'⟩

/-! ## The last items -/

/-- What a push that finds memory stores. -/
def pushed (data : Bytes) (now : Int64) : RingbufEntry where
  timestamp := now
  data := some (data ++ [0])
  size := data.length

/-- What has been pushed since the last clear, the oldest first. -/
def RingbufOp.logged (items : List RingbufEntry) : RingbufOp → List RingbufEntry
  | .push data _ now => items ++ [pushed data now]
  | .clear => []

def sinceClear (ops : List RingbufOp) : List RingbufEntry := ops.foldl RingbufOp.logged []

/-- The allocation succeeds. -/
def RingbufOp.Succeeds : RingbufOp → Prop
  | .push _ mallocOk _ => mallocOk = true
  | .clear => True

/-- The entry with that index, counted from 0. -/
def atIndex (items : List RingbufEntry) (index : Int) : Option RingbufEntry :=
  if index < 0 then none else items[index.toNat]?

/-- The buffer shows the last items. -/
structure Ringbuf.Shows (capacity : Nat) (items : List RingbufEntry) (rb : Ringbuf) : Prop where
  count : ringbufCount rb = min items.length capacity
  get : ∀ index, (ringbufGetSlot rb index).isSome ∧
    ringbufGet rb index = atIndex (items.drop (items.length - capacity)) index
  recent : ∀ index, (ringbufRecentSlot rb index).isSome ∧
    ringbufGetRecent rb index = atIndex (items.drop (items.length - capacity)).reverse index
  same : ∀ index : Int, 0 ≤ index → index < ringbufCount rb →
    ringbufGetSlot rb index = ringbufRecentSlot rb (ringbufCount rb - 1 - index)
  distinct : ∀ i j : Int, 0 ≤ i → i < ringbufCount rb → 0 ≤ j → j < ringbufCount rb →
    ringbufGetSlot rb i = ringbufGetSlot rb j → i = j

/-- The invariant of a run in which every allocation succeeds. -/
structure Ringbuf.Holds (capacity : Nat) (items : List RingbufEntry) (rb : Ringbuf) : Prop where
  counts : rb.Counts capacity items.length
  keeps : Ring.Keeps capacity items rb.entries

namespace Ringbuf.Holds

variable {capacity : Nat} {items : List RingbufEntry} {rb : Ringbuf}

theorem create (capacity : Nat) : (ringbufCreate capacity).Holds capacity [] :=
  ⟨.create capacity, .nil List.length_replicate⟩

variable (hpos : 1 ≤ capacity)

include hpos

theorem step (h : rb.Holds capacity items) (hmax : capacity < 2 ^ 31) {op : RingbufOp}
    (hok : op.Succeeds) :
    ∃ rb', op.run rb = some rb' ∧ rb'.Holds capacity (op.logged items) := by
  cases op with
  | push data mallocOk now =>
    obtain rfl : mallocOk = true := hok
    refine ⟨_, h.counts.push_defined hpos hmax data data.length true now, ?_, ?_⟩
    · have hcounts := h.counts.push data data.length true now
      rw [RingbufOp.logged, List.length_append, List.length_singleton]
      exact hcounts
    · have hkeeps := h.keeps.push hpos (pushed data now)
      rw [← h.counts.head_eq] at hkeeps
      simpa only [ringbufPush, if_true, List.take_length, RingbufOp.logged, pushed] using hkeeps
  | clear => exact ⟨_, rfl, h.counts.clear, .nil h.counts.clear.entries_length⟩

/-- An item that is still there, where the sum in `ringbuf_get_recent` is an `int`. -/
theorem recent_of_fits (h : rb.Holds capacity items) (hfits : rb.head + capacity ≤ 2 ^ 31)
    {i : Nat} (hi : i < rb.count) :
    (ringbufRecentSlot rb i).isSome ∧ ringbufGetRecent rb i = items.reverse[i]? := by
  have hcount := h.counts.count_eq
  obtain ⟨hslot, hget⟩ := h.counts.recent_slot_of_fits hpos hfits hi
  refine ⟨by rw [hslot]; rfl, ?_⟩
  rw [hget, h.keeps.slot _ (by omega) (by omega), List.getElem?_reverse (by omega)]

variable (hmax : capacity ≤ 2 ^ 30)

include hmax

theorem get (h : rb.Holds capacity items) (index : Int) :
    (ringbufGetSlot rb index).isSome ∧
      ringbufGet rb index = atIndex (items.drop (items.length - capacity)) index := by
  by_cases hlive : index < 0 ∨ index ≥ rb.count
  · rw [ringbufGetSlot, ringbufGet, if_pos hlive, if_pos hlive, atIndex]
    refine ⟨rfl, ?_⟩
    split
    · rfl
    · have hlen : (items.drop (items.length - capacity)).length ≤ index.toNat := by
        rw [List.length_drop]
        have hcount := h.counts.count_eq
        omega
      exact (List.getElem?_eq_none hlen).symm
  · obtain ⟨i, rfl⟩ := Int.eq_ofNat_of_zero_le (show 0 ≤ index by omega)
    have hi : i < rb.count := by omega
    have hcount := h.counts.count_eq
    obtain ⟨hslot, hget⟩ := h.counts.get_slot hpos hmax hi
    refine ⟨by rw [hslot]; rfl, ?_⟩
    rw [hget, h.keeps.slot _ (by omega) (by omega), atIndex, if_neg (by omega),
      Int.toNat_natCast, List.getElem?_drop]

theorem recent (h : rb.Holds capacity items) (index : Int) :
    (ringbufRecentSlot rb index).isSome ∧
      ringbufGetRecent rb index =
        atIndex (items.drop (items.length - capacity)).reverse index := by
  have hlen : (items.drop (items.length - capacity)).length = rb.count := by
    rw [List.length_drop, h.counts.count_eq]
    omega
  by_cases hlive : index < 0 ∨ index ≥ rb.count
  · rw [ringbufRecentSlot, ringbufGetRecent, if_pos hlive, if_pos hlive, atIndex]
    refine ⟨rfl, ?_⟩
    split
    · rfl
    · rw [List.getElem?_eq_none]
      rw [List.length_reverse, hlen]
      omega
  · obtain ⟨i, rfl⟩ := Int.eq_ofNat_of_zero_le (show 0 ≤ index by omega)
    have hi : i < rb.count := by omega
    have hhead := h.counts.head_lt hpos
    obtain ⟨hslot, hget⟩ := h.recent_of_fits hpos (by omega) hi
    refine ⟨hslot, ?_⟩
    rw [hget, atIndex, if_neg (by omega), Int.toNat_natCast, List.reverse_drop,
      List.getElem?_take_of_lt (by rw [← List.length_drop, hlen]; exact hi)]

theorem same (h : rb.Holds capacity items) {i : Nat} (hi : i < rb.count) :
    ringbufGetSlot rb i = ringbufRecentSlot rb ((rb.count : Int) - 1 - i) := by
  have hcount := h.counts.count_eq
  have hback : (rb.count : Int) - 1 - i = ((rb.count - 1 - i : Nat) : Int) := by omega
  have hitem : items.length - capacity + i = items.length - 1 - (rb.count - 1 - i) := by omega
  rw [hback, (h.counts.get_slot hpos hmax hi).1,
    (h.counts.recent_slot hpos hmax (show rb.count - 1 - i < rb.count by omega)).1, hitem]

theorem distinct (h : rb.Holds capacity items) {i j : Nat} (hi : i < rb.count)
    (hj : j < rb.count) (hslot : ringbufGetSlot rb i = ringbufGetSlot rb j) : i = j := by
  have hcount := h.counts.count_eq
  rw [(h.counts.get_slot hpos hmax hi).1, (h.counts.get_slot hpos hmax hj).1] at hslot
  have heq := Option.some.inj (Option.some.inj hslot)
  rcases Nat.lt_trichotomy i j with hless | rfl | hless
  · exact absurd heq (Ring.slot_ne (by omega) (by omega))
  · rfl
  · exact absurd heq.symm (Ring.slot_ne (by omega) (by omega))

theorem shows (h : rb.Holds capacity items) : rb.Shows capacity items := by
  refine ⟨h.counts.count_eq, h.get hpos hmax, h.recent hpos hmax, ?_, ?_⟩
  · intro index hlo hhi
    obtain ⟨i, rfl⟩ := Int.eq_ofNat_of_zero_le hlo
    exact h.same hpos hmax (Int.ofNat_lt.1 hhi)
  · intro i j hi hilt hj hjlt hslot
    obtain ⟨i, rfl⟩ := Int.eq_ofNat_of_zero_le hi
    obtain ⟨j, rfl⟩ := Int.eq_ofNat_of_zero_le hj
    exact congrArg _ (h.distinct hpos hmax (Int.ofNat_lt.1 hilt) (Int.ofNat_lt.1 hjlt) hslot)

end Ringbuf.Holds

/-- What one operation keeps, a whole run keeps. -/
theorem ringbufRun_holds {capacity : Nat} (hpos : 1 ≤ capacity) (hmax : capacity < 2 ^ 31)
    (ops : List RingbufOp) (hok : ∀ op ∈ ops, op.Succeeds) :
    ∃ rb, ringbufRun capacity ops = some rb ∧ rb.Holds capacity (sinceClear ops) := by
  induction ops using List.reverseRecOn with
  | nil => exact ⟨_, rfl, .create capacity⟩
  | append_singleton ops op ih =>
    obtain ⟨rb, hrun, hholds⟩ := ih fun op' hop' => hok op' (List.mem_append_left _ hop')
    have hsucceeds := hok op (List.mem_append_right _ (List.mem_singleton_self op))
    obtain ⟨rb', hstep, hholds'⟩ := hholds.step hpos hmax hsucceeds
    rw [ringbufRun_append, hrun, sinceClear, List.foldl_append]
    exact ⟨rb', hstep, hholds'⟩

/-- **The history is the list of the last items**, after any pushes and clears. -/
theorem ringbuf_refines (capacity : Nat) (hpos : 1 ≤ capacity) (hmax : capacity ≤ 2 ^ 30)
    (ops : List RingbufOp) (hok : ∀ op ∈ ops, op.Succeeds) :
    ∃ rb, ringbufRun capacity ops = some rb ∧ rb.Shows capacity (sinceClear ops) := by
  obtain ⟨rb, hrun, hholds⟩ := ringbufRun_holds hpos (by omega) ops hok
  exact ⟨rb, hrun, hholds.shows hpos hmax⟩

/-- Three pushes into a buffer for two. -/
theorem ringbuf_refines_two :
    let ops : List RingbufOp := [.push [1] true 10, .clear, .push [2] true 20, .push [3] true 30,
      .push [4] true 40]
    ∃ rb, ringbufRun 2 ops = some rb ∧
      rb.Shows 2 [pushed [2] 20, pushed [3] 30, pushed [4] 40] :=
  ringbuf_refines 2 (by decide) (by decide)
    [.push [1] true 10, .clear, .push [2] true 20, .push [3] true 30, .push [4] true 40]
    (by simp [RingbufOp.Succeeds])

end Qmem
