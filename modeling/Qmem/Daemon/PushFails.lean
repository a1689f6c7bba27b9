import Qmem.Daemon.History

/-!
# Pushes without memory

`ringbuf_push` frees the entry it is about to overwrite before it asks for memory. In a buffer that
is not full there is nothing to free. In a full one the oldest entry is still shown, and from then
on without its text.

Main result: `failed_push_harmless_iff`.
-/

namespace Qmem

open CLib

/-! ## What a caller sees -/

/-- What `ringbuf_get` points to, where it is defined; the inner `none` is NULL. -/
def ringbufGetDefined (rb : Ringbuf) (index : Int) : Option (Option RingbufEntry) :=
  (ringbufGetSlot rb index).map fun slot => slot.bind fun slot => rb.entries[slot]?

/-- What `ringbuf_get_recent` points to, where it is defined. -/
def ringbufRecentDefined (rb : Ringbuf) (index : Int) : Option (Option RingbufEntry) :=
  (ringbufRecentSlot rb index).map fun slot => slot.bind fun slot => rb.entries[slot]?

/-- No call tells the two buffers apart. -/
structure Ringbuf.Alike (a b : Ringbuf) : Prop where
  count : ringbufCount a = ringbufCount b
  get : ∀ index, ringbufGetDefined a index = ringbufGetDefined b index
  recent : ∀ index, ringbufRecentDefined a index = ringbufRecentDefined b index

/-- Nor does one after any more operations. -/
def Ringbuf.StaysAlike (a b : Ringbuf) : Prop :=
  ∀ later : List RingbufOp, ∃ a' b', later.foldlM RingbufOp.run a = some a' ∧
    later.foldlM RingbufOp.run b = some b' ∧ a'.Alike b'

/-! ## Slots out of use -/

/-- The slots behind the entries hold no text. -/
def Ringbuf.Freed (rb : Ringbuf) : Prop :=
  ∀ slot entry, rb.count ≤ slot → rb.entries[slot]? = some entry → entry.data = none

theorem Ringbuf.freed_create (capacity : Nat) : (ringbufCreate capacity).Freed := by
  intro slot entry _ hentry
  rw [ringbufCreate, List.getElem?_replicate] at hentry
  split at hentry
  · rw [← Option.some.inj hentry]
    rfl
  · cases hentry

theorem Ringbuf.freed_clear (rb : Ringbuf) : (ringbufClear rb).Freed := by
  intro slot entry _ hentry
  rw [ringbufClear, List.getElem?_map, Option.map_eq_some_iff] at hentry
  obtain ⟨old, -, rfl⟩ := hentry
  rfl

/-- Freeing the text of a slot leaves no text where there was none. -/
theorem freed_modify {entries : List RingbufEntry} {head slot : Nat} {entry : RingbufEntry}
    (hentry : (entries.modify head fun entry => { entry with data := none })[slot]? = some entry)
    (hold : ∀ old, entries[slot]? = some old → old.data = none) : entry.data = none := by
  rw [List.getElem?_modify, Option.map_eq_map, Option.map_eq_some_iff] at hentry
  obtain ⟨old, hslot, rfl⟩ := hentry
  by_cases hhead : head = slot
  · simp [hhead]
  · simpa [hhead] using hold old hslot

theorem Ringbuf.Freed.push {rb : Ringbuf} {capacity n : Nat} (h : rb.Freed)
    (hcounts : rb.Counts capacity n) (data : Bytes) (size : Nat) (mallocOk : Bool) (now : Int64) :
    (ringbufPush rb data size mallocOk now).1.Freed := by
  intro slot entry hslot hentry
  cases mallocOk with
  | false => exact freed_modify hentry fun old hold => h slot old hslot hold
  | true =>
    have hcap := hcounts.capacity_eq
    have hcount := hcounts.count_eq
    have hhead := hcounts.head_eq
    simp only [ringbufPush, if_true] at hslot hentry
    by_cases hroom : rb.count < rb.capacity
    · -- The slot written is the first one behind the entries.
      rw [if_pos hroom] at hslot
      have hfirst : rb.head = rb.count := by
        rw [hhead, hcount, Nat.mod_eq_of_lt (by omega), Nat.min_eq_left (by omega)]
      rw [List.getElem?_set_ne (by omega)] at hentry
      exact h slot entry (by omega) hentry
    · -- A full buffer has no slot behind the entries.
      rw [if_neg hroom] at hslot
      have hlen := (List.getElem?_eq_some_iff.1 hentry).1
      rw [List.length_set, hcounts.entries_length] at hlen
      omega

theorem RingbufOp.run_freed {rb rb' : Ringbuf} {capacity n : Nat} (hpos : 1 ≤ capacity)
    (hmax : capacity < 2 ^ 31) (hcounts : rb.Counts capacity n) (h : rb.Freed) (op : RingbufOp)
    (hrun : op.run rb = some rb') : rb'.Freed := by
  cases op with
  | push data mallocOk now =>
    have hpush := hcounts.push_defined hpos hmax data data.length mallocOk now
    rw [RingbufOp.run, hpush] at hrun
    rw [← Option.some.inj hrun]
    exact h.push hcounts data data.length mallocOk now
  | clear =>
    rw [← Option.some.inj hrun]
    exact rb.freed_clear

/-- In every state that a run leads to. -/
theorem ringbufRun_freed {capacity : Nat} (hpos : 1 ≤ capacity) (hmax : capacity < 2 ^ 31)
    (ops : List RingbufOp) {rb : Ringbuf} (hrun : ringbufRun capacity ops = some rb) :
    rb.Freed := by
  induction ops using List.reverseRecOn generalizing rb with
  | nil =>
    rw [← Option.some.inj hrun]
    exact Ringbuf.freed_create capacity
  | append_singleton ops op ih =>
    obtain ⟨before, hbefore, hcounts⟩ := ringbufRun_counts hpos hmax ops
    rw [ringbufRun_append, hbefore] at hrun
    exact RingbufOp.run_freed hpos hmax hcounts (ih hbefore) op hrun

/-! ## A push that finds no memory -/

namespace Ringbuf.Counts

variable {capacity n : Nat} {rb : Ringbuf}

/-- Operations are defined from here on. -/
theorem run_defined (h : rb.Counts capacity n) (hpos : 1 ≤ capacity) (hmax : capacity < 2 ^ 31)
    (later : List RingbufOp) :
    ∃ rb', later.foldlM RingbufOp.run rb = some rb' := by
  induction later generalizing rb n with
  | nil => exact ⟨rb, rfl⟩
  | cons op later ih =>
    obtain ⟨next, hnext, hcounts⟩ := h.step hpos hmax op
    obtain ⟨rb', hlater⟩ := ih hcounts
    refine ⟨rb', ?_⟩
    rw [List.foldlM_cons, hnext]
    exact hlater

theorem staysAlike_self (h : rb.Counts capacity n) (hpos : 1 ≤ capacity)
    (hmax : capacity < 2 ^ 31) : rb.StaysAlike rb := by
  intro later
  obtain ⟨rb', hlater⟩ := h.run_defined hpos hmax later
  exact ⟨rb', rb', hlater, hlater, rfl, fun _ => rfl, fun _ => rfl⟩

/-- In a full buffer the slot at `head` is the oldest entry's. -/
theorem oldest_slot (h : rb.Counts capacity n) (hpos : 1 ≤ capacity) (hmax : capacity < 2 ^ 31)
    (hfull : ¬ rb.count < rb.capacity) : ringbufGetSlot rb 0 = some (some rb.head) := by
  have hhead := h.head_lt hpos
  have hcap := h.capacity_eq
  have hcount := h.count_eq
  have hlast : (rb.head : Int) - rb.count + 0 + rb.capacity = rb.head := by omega
  rw [ringbufGetSlot, if_neg (by omega)]
  simp only [Option.bind_eq_bind]
  rw [asInt_eq (by omega) (by omega), Option.bind_some, asInt_eq (by omega) (by omega),
    Option.bind_some, hlast, asInt_eq (by omega) (by omega), Option.bind_some,
    intMod_eq (by omega) (by omega), Int.emod_eq_of_lt (by omega) (by omega), Option.bind_some,
    if_pos (by rw [h.entries_length]; omega), Int.toNat_natCast]

theorem oldest (h : rb.Counts capacity n) (hpos : 1 ≤ capacity)
    (hfull : ¬ rb.count < rb.capacity) : ringbufGet rb 0 = rb.entries[rb.head]? := by
  have hhead := h.head_lt hpos
  have hcap := h.capacity_eq
  have hcount := h.count_eq
  have hlast : (rb.head : Int) - rb.count + 0 + rb.capacity = rb.head := by omega
  rw [ringbufGet, if_neg (by omega), hlast, Int.emod_eq_of_lt (by omega) (by omega),
    Int.toNat_natCast]

end Ringbuf.Counts

/-- The oldest entry is not in the way of the next push, or has no text any more. -/
def Ringbuf.NothingToLose (rb : Ringbuf) : Prop :=
  rb.count < rb.capacity ∨ (ringbufGet rb 0).map RingbufEntry.data = some none

instance (rb : Ringbuf) : Decidable rb.NothingToLose := inferInstanceAs (Decidable (_ ∨ _))

/-- Freeing nothing changes nothing. -/
theorem modify_freed {entries : List RingbufEntry} {head : Nat}
    (h : ∀ entry, entries[head]? = some entry → entry.data = none) :
    (entries.modify head fun entry => { entry with data := none }) = entries := by
  apply List.ext_getElem?
  intro slot
  rw [List.getElem?_modify]
  by_cases hslot : head = slot
  · subst hslot
    cases hentry : entries[head]? with
    | none => rfl
    | some entry =>
      have hdata := h entry hentry
      cases entry
      simp_all
  · simp [hslot]

theorem failed_push_same {capacity n : Nat} {rb : Ringbuf} (hcounts : rb.Counts capacity n)
    (hpos : 1 ≤ capacity) (hfreed : rb.Freed) (h : rb.NothingToLose) (data : Bytes) (size : Nat)
    (now : Int64) : (ringbufPush rb data size false now).1 = rb := by
  have hdata : ∀ entry, rb.entries[rb.head]? = some entry → entry.data = none := by
    intro entry hentry
    by_cases hroom : rb.count < rb.capacity
    · have hcap := hcounts.capacity_eq
      have hcount := hcounts.count_eq
      have hfirst : rb.count ≤ rb.head := by
        rw [hcounts.head_eq, hcount, Nat.mod_eq_of_lt (by omega), Nat.min_eq_left (by omega)]
      exact hfreed rb.head entry hfirst hentry
    · have hlost := h.resolve_left hroom
      rw [hcounts.oldest hpos hroom, hentry] at hlost
      exact Option.some.inj hlost
  rw [ringbufPush, if_neg Bool.false_ne_true, modify_freed hdata]

/-- In a full buffer the oldest entry loses its text at once. -/
theorem failed_push_loses {capacity n : Nat} {rb : Ringbuf} (hcounts : rb.Counts capacity n)
    (hpos : 1 ≤ capacity) (hmax : capacity < 2 ^ 31) (hfull : ¬ rb.count < rb.capacity)
    (data : Bytes) (size : Nat) (now : Int64)
    (hget : ringbufGetDefined (ringbufPush rb data size false now).1 0 = ringbufGetDefined rb 0) :
    (ringbufGet rb 0).map RingbufEntry.data = some none := by
  have hafter := hcounts.push data size false now
  have hslot := hafter.oldest_slot hpos hmax hfull
  have hin : rb.head < rb.entries.length := by
    rw [hcounts.entries_length]
    exact hcounts.head_lt hpos
  rw [ringbufGetDefined, ringbufGetDefined, hslot, hcounts.oldest_slot hpos hmax hfull] at hget
  have hsame := Option.some.inj hget
  simp only [Option.bind_some, ringbufPush, Bool.false_eq_true, if_false, List.getElem?_modify_eq,
    List.getElem?_eq_getElem hin] at hsame
  rw [hcounts.oldest hpos hfull, List.getElem?_eq_getElem hin, ← hsame]
  rfl

/-- **A push without memory shows in nothing exactly when there is nothing to lose**: the buffer is
not full, or its oldest entry has lost its text before. -/
theorem failed_push_harmless_iff (capacity : Nat) (hpos : 1 ≤ capacity) (hmax : capacity < 2 ^ 31)
    (ops : List RingbufOp) (rb : Ringbuf) (hrun : ringbufRun capacity ops = some rb)
    (data : Bytes) (size : Nat) (now : Int64) :
    (∃ rb', ringbufPushDefined rb data size false now = some rb' ∧
      (ringbufPush rb data size false now).2 = -1 ∧ rb'.StaysAlike rb) ↔ rb.NothingToLose := by
  obtain ⟨_, hrun', hcounts⟩ := ringbufRun_counts hpos hmax ops
  obtain rfl := Option.some.inj (hrun.symm.trans hrun')
  have hpush := hcounts.push_defined hpos hmax data size false now
  constructor
  · rintro ⟨rb', hrb', -, halike⟩
    obtain rfl := Option.some.inj (hpush.symm.trans hrb')
    obtain ⟨_, _, hleft, hright, hsame⟩ := halike []
    obtain rfl := Option.some.inj hleft
    obtain rfl := Option.some.inj hright
    by_cases hfull : rb.count < rb.capacity
    · exact Or.inl hfull
    · exact Or.inr (failed_push_loses hcounts hpos hmax hfull data size now (hsame.get 0))
  · intro h
    have hfreed := ringbufRun_freed hpos hmax ops hrun
    have hsame := failed_push_same hcounts hpos hfreed h data size now
    exact ⟨rb, by rw [hpush, hsame], rfl, hcounts.staysAlike_self hpos hmax⟩

/-- One text in a buffer for two: the failed push shows in nothing. -/
theorem failed_push_harmless_iff_room :
    ∃ rb rb', ringbufRun 2 [.push [65] true 10] = some rb ∧
      ringbufPushDefined rb [66] 1 false 20 = some rb' ∧
      (ringbufPush rb [66] 1 false 20).2 = -1 ∧ rb'.StaysAlike rb := by
  refine ⟨⟨[⟨10, some [65, 0], 1⟩, emptyEntry], 2, 1, 1⟩, ?_⟩
  obtain ⟨rb', h⟩ := (failed_push_harmless_iff 2 (by decide) (by decide) [.push [65] true 10]
    ⟨[⟨10, some [65, 0], 1⟩, emptyEntry], 2, 1, 1⟩ rfl [66] 1 20).2 (Or.inl (by decide))
  exact ⟨rb', rfl, h⟩

/-- One text in a buffer for one: after the failed push it is still counted, but gone. -/
theorem failed_push_loses_oldest :
    (ringbufRun 1 [.push [65] true 10]).map (fun rb => (ringbufCount rb, ringbufGet rb 0)) =
      some (1, some { timestamp := 10, data := some [65, 0], size := 1 }) ∧
    (ringbufRun 1 [.push [65] true 10, .push [66] false 20]).map
      (fun rb => (ringbufCount rb, ringbufGet rb 0)) =
      some (1, some { timestamp := 10, data := none, size := 1 }) := ⟨rfl, rfl⟩

end Qmem
