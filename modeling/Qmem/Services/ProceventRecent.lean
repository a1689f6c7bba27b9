import Qmem.Lib.Ring
import Qmem.Services.ProceventDiff

/-!
# The events procevent keeps

The events of any calls of `add_event`, as a list without bound, and what is left of it: the array
has the last 100, of which both readers take the newest first. The counters count modulo `2 ^ 64`.

Main result: `events_kept`.
-/

namespace Qmem

open CLib PoolTable

namespace Procevent

/-- A call of `add_event`, at the time that it reads; `cmd` may be `NULL`. -/
structure EventCall where
  type : ProcEventType
  pid : Int32
  ppid : Int32
  cmd : Option CStr
  exitCode : Int32
  time : UInt64

/-- The event that the call fills in. -/
def EventCall.event (call : EventCall) : ProcEvent where
  type := call.type
  pid := call.pid
  parentPid := call.ppid
  exitCode := call.exitCode
  cmd := match call.cmd with
    | some cmd => cmd.cut 127
    | none => .lit ""
  timestamp := call.time

/-- The state after these calls. -/
def addEvents (calls : List EventCall) : ProceventPriv :=
  calls.foldl (fun priv call => addEvent priv call.event) proceventInit

/-- The array has the last of the events. -/
structure Holds (events : List ProcEvent) (priv : ProceventPriv) : Prop where
  head : priv.eventHead = events.length % maxEvents
  count : priv.eventCount = min events.length maxEvents
  slot : ∀ j < events.length, events.length ≤ j + maxEvents →
    some (priv.events (j % maxEvents)) = events[j]?

theorem holds_init : Holds [] proceventInit := ⟨rfl, rfl, nofun⟩

theorem Holds.addEvent {events : List ProcEvent} {priv : ProceventPriv} (h : Holds events priv)
    (e : ProcEvent) : Holds (events ++ [e]) (addEvent priv e) := by
  have hlen : (events ++ [e]).length = events.length + 1 := by
    rw [List.length_append, List.length_singleton]
  refine ⟨?_, ?_, fun j hj hnear => ?_⟩
  · show (priv.eventHead + 1) % maxEvents = _
    rw [h.head, Nat.mod_add_mod, hlen]
  · show (if priv.eventCount < maxEvents then priv.eventCount + 1 else priv.eventCount) = _
    rw [h.count, hlen]
    split
    · omega
    · omega
  · rw [hlen] at hj hnear
    show some (Function.update priv.events priv.eventHead e (j % maxEvents)) = _
    rw [h.head]
    by_cases hlast : j = events.length
    · rw [hlast, Function.update_self, List.getElem?_concat_length]
    · have hbefore : j < events.length := by omega
      have hne : j % maxEvents ≠ events.length % maxEvents := Ring.slot_ne hbefore (by omega)
      rw [Function.update_of_ne hne, List.getElem?_append_left hbefore]
      exact h.slot j hbefore (by omega)

theorem holds_addEvents (calls : List EventCall) :
    Holds (calls.map EventCall.event) (addEvents calls) := by
  induction calls using List.reverseRecOn with
  | nil => exact holds_init
  | append_singleton calls call ih =>
    rw [addEvents, List.foldl_append, List.map_append]
    exact ih.addEvent call.event

/-- Both readers find the `i`-th event from the end. -/
theorem Holds.recentEvent {events : List ProcEvent} {priv : ProceventPriv} (h : Holds events priv)
    {i : Nat} (hi : i < priv.eventCount) :
    some (recentEvent priv i) = events.reverse[i]? := by
  rw [h.count] at hi
  have hlt : i < events.length := by omega
  have hslot : (priv.eventHead + maxEvents - 1 - i) % maxEvents =
      (events.length - 1 - i) % maxEvents := by
    rw [h.head]
    simp only [maxEvents] at hi ⊢
    omega
  rw [Procevent.recentEvent, hslot, List.getElem?_reverse hlt]
  exact h.slot _ (by omega) (by omega)

theorem Holds.recent {events : List ProcEvent} {priv : ProceventPriv} (h : Holds events priv)
    (n : Nat) : (List.range (min priv.eventCount n)).map (Procevent.recentEvent priv) =
      events.reverse.take (min maxEvents n) := by
  refine List.ext_getElem? fun i => ?_
  by_cases hi : i < min priv.eventCount n
  · have hlt : i < min maxEvents n := by
      rw [h.count] at hi
      omega
    rw [List.getElem?_map, List.getElem?_range hi, List.getElem?_take_of_lt hlt]
    exact h.recentEvent (by omega)
  · have hnone : (events.reverse.take (min maxEvents n)).length ≤ i := by
      rw [h.count] at hi
      rw [List.length_take, List.length_reverse]
      omega
    rw [List.getElem?_eq_none hnone, List.getElem?_eq_none]
    rw [List.length_map, List.length_range]
    omega

theorem addEvents_counters (calls : List EventCall) :
    (addEvents calls).counters = tally (calls.map EventCall.event) ⟨0, 0, 0⟩ := by
  induction calls using List.reverseRecOn with
  | nil => rfl
  | append_singleton calls call ih =>
    rw [addEvents, List.foldl_append, List.map_append, tally_append, ← ih]
    rfl

/-- How many of the events are of the type. -/
def number (type : ProcEventType) (calls : List EventCall) : Nat :=
  (calls.map EventCall.type).count type

theorem addEvents_tally (calls : List EventCall) :
    (addEvents calls).counters = {
      forks := .ofNat (number .fork calls)
      execs := .ofNat (number .exec calls)
      exits := .ofNat (number .exit calls) } := by
  have htypes : (calls.map EventCall.event).map ProcEvent.type = calls.map EventCall.type := by
    rw [List.map_map]
    rfl
  rw [addEvents_counters, tally_eq, htypes]
  simp [number]

/-- The two readers show the last of the events, the newest first. -/
structure ShowsNewest (events : List ProcEvent) (priv : ProceventPriv) : Prop where
  getRecent : ∀ n, proceventGetRecent priv n = events.reverse.take (min 100 n)
  snapshot : ∀ δ : Type, (proceventSnapshot priv : List (JsonCall δ)) =
    objectCalls [
      .key (.lit "counters") :: objectCalls [[
        .kvUint (.lit "forks") priv.counters.forks,
        .kvUint (.lit "execs") priv.counters.execs,
        .kvUint (.lit "exits") priv.counters.exits]],
      .key (.lit "recent_events") :: arrayCalls (events.reverse.take (min 100 20)) eventCalls]

theorem Holds.showsNewest {events : List ProcEvent} {priv : ProceventPriv}
    (h : Holds events priv) : ShowsNewest events priv where
  getRecent := h.recent
  snapshot _ := by rw [proceventSnapshot, h.recent, maxEvents]

/-- **The events procevent keeps**: after any calls of `add_event`, the newest ones, and the number
of each type modulo `2 ^ 64`. -/
theorem events_kept (calls : List EventCall) :
    ShowsNewest (calls.map EventCall.event) (addEvents calls) ∧
      (addEvents calls).counters.forks.toNat = number .fork calls % 2 ^ 64 ∧
      (addEvents calls).counters.execs.toNat = number .exec calls % 2 ^ 64 ∧
      (addEvents calls).counters.exits.toNat = number .exit calls % 2 ^ 64 := by
  refine ⟨(holds_addEvents calls).showsNewest, ?_⟩
  rw [addEvents_tally]
  exact ⟨UInt64.toNat_ofNat', UInt64.toNat_ofNat', UInt64.toNat_ofNat'⟩

def forkCall : EventCall where
  type := .fork
  pid := 1
  ppid := 0
  cmd := none
  exitCode := 0
  time := 0

/-- After so many forks the counter is back at 0. -/
theorem forks_wrap :
    ¬ ∀ calls : List EventCall,
      ShowsNewest (calls.map EventCall.event) (addEvents calls) ∧
        (addEvents calls).counters.forks.toNat = number .fork calls ∧
        (addEvents calls).counters.execs.toNat = number .exec calls ∧
        (addEvents calls).counters.exits.toNat = number .exit calls := by
  intro hall
  have hnumber (n : Nat) : number .fork (List.replicate n forkCall) = n := by
    rw [number, List.map_replicate]
    exact List.count_replicate_self
  obtain ⟨-, hforks, -⟩ := hall (List.replicate (2 ^ 64) forkCall)
  rw [addEvents_tally, hnumber] at hforks
  exact absurd hforks (by decide)

end Procevent

end Qmem
