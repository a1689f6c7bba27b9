import Qmem.Daemon.ConfigArgs
import Qmem.Daemon.History

/-!
# What a configuration does to the daemon

The number of snapshots becomes the capacity of the history, and the interval the bound of the loop
that sleeps. Neither is checked where it is read.

Main result: `config_safe_iff`.
-/

namespace Qmem

open CLib

/-! ## The history -/

/-- `ringbuf_create`; `calloc` refuses a negative number, of which it sees a huge one. -/
def ringbufCreateInt (capacity : Int32) (allocOk : Bool) : Option Ringbuf :=
  if capacity < 0 ∨ allocOk = false then none else some (ringbufCreate capacity.toInt.toNat)

/-- Whatever is done to the buffer, it is defined, and so is reading from it then. -/
def Ringbuf.Safe (rb : Ringbuf) : Prop :=
  ∀ ops : List RingbufOp, ∃ rb', ops.foldlM RingbufOp.run rb = some rb' ∧
    ∀ index : Int32, (ringbufGetSlot rb' index.toInt).isSome ∧
      (ringbufRecentSlot rb' index.toInt).isSome

/-- Pushes that find memory. -/
def pushes (n : Nat) : List RingbufOp := List.replicate n (.push [] true 0)

theorem counted_pushes (n k : Nat) : (pushes n).foldl RingbufOp.counted k = k + n := by
  induction n generalizing k with
  | zero => rfl
  | succ n ih =>
    rw [pushes, List.replicate_succ, List.foldl_cons]
    show (pushes n).foldl RingbufOp.counted (k + 1) = k + (n + 1)
    rw [ih, Nat.add_assoc, Nat.add_comm 1 n]

theorem ringbuf_safe {capacity : Nat} (hpos : 1 ≤ capacity) (hmax : capacity ≤ 2 ^ 30) :
    (ringbufCreate capacity).Safe := by
  intro ops
  obtain ⟨rb, hrun, hcounts⟩ := ringbufRun_counts hpos (by omega) ops
  refine ⟨rb, hrun, fun index => ?_⟩
  by_cases hlive : index.toInt < 0 ∨ index.toInt ≥ rb.count
  · rw [ringbufGetSlot, ringbufRecentSlot, if_pos hlive, if_pos hlive]
    exact ⟨rfl, rfl⟩
  · have hindex : ((index.toInt.toNat : Nat) : Int) = index.toInt := Int.toNat_of_nonneg (by omega)
    have hlt : index.toInt.toNat < rb.count := by omega
    rw [← hindex, (hcounts.get_slot hpos hmax hlt).1, (hcounts.recent_slot hpos hmax hlt).1]
    exact ⟨rfl, rfl⟩

/-- A buffer without entries has no room for the first push. -/
theorem not_safe_zero : ¬ (ringbufCreate 0).Safe := by
  intro h
  obtain ⟨rb, hrun, _⟩ := h (pushes 1)
  cases hrun

/-- One entry short of full, the sum in `ringbuf_get` is too large. -/
theorem not_safe_large {capacity : Nat} (hlarge : 2 ^ 30 < capacity) (hmax : capacity < 2 ^ 31) :
    ¬ (ringbufCreate capacity).Safe := by
  intro h
  obtain ⟨rb, hrun, hsafe⟩ := h (pushes (capacity - 1))
  obtain ⟨rb', hrun', hcounts⟩ := ringbufRun_counts (show 1 ≤ capacity by omega) hmax
    (pushes (capacity - 1))
  rw [ringbufRun, hrun] at hrun'
  obtain rfl := Option.some.inj hrun'
  rw [counted_pushes, Nat.zero_add] at hcounts
  have hhead : rb.head = capacity - 1 := by
    rw [hcounts.head_eq, Nat.mod_eq_of_lt (by omega)]
  have hcount : rb.count = capacity - 1 := by
    rw [hcounts.count_eq]
    omega
  have hindex : (Int32.ofInt (capacity - 2)).toInt = capacity - 2 :=
    Int32.toInt_ofInt_of_le (by omega) (by omega)
  have hget := (hsafe (Int32.ofInt (capacity - 2))).1
  rw [hindex, ringbufGetSlot, if_neg (by omega), asInt_eq (by omega) (by omega)] at hget
  simp only [Option.bind_eq_bind, Option.bind_some] at hget
  rw [asInt_eq (by omega) (by omega), Option.bind_some, hcounts.capacity_eq,
    asInt_overflow (by omega), Option.bind_none] at hget
  cases hget

theorem ringbuf_safe_iff {capacity : Nat} (hmax : capacity < 2 ^ 31) :
    (ringbufCreate capacity).Safe ↔ 1 ≤ capacity ∧ capacity ≤ 2 ^ 30 := by
  constructor
  · intro h
    by_contra hbad
    rcases Nat.eq_zero_or_pos capacity with rfl | hpos
    · exact not_safe_zero h
    · exact not_safe_large (by omega) hmax h
  · rintro ⟨hpos, hle⟩
    exact ringbuf_safe hpos hle

/-! ## The sleep -/

/-- The loop at the end of a turn of `daemon_run`, from its `i`-th test on: how often it sleeps.
There are `left` turns of it left; `running` is `g_running` at each test. -/
def sleepLoop (running : Nat → Bool) (i : Nat) : Nat → Nat
  | 0 => 0
  | left + 1 => if running i then sleepLoop running (i + 1) left + 1 else 0

/-- How often a turn of `daemon_run` sleeps. -/
def turnSleeps (intervalSec : Int32) (running : Nat → Bool) : Nat :=
  sleepLoop running 0 intervalSec.toInt.toNat

theorem sleepLoop_running {running : Nat → Bool} (h : ∀ i, running i = true) (i left : Nat) :
    sleepLoop running i left = left := by
  induction left generalizing i with
  | zero => rfl
  | succ left ih => rw [sleepLoop, if_pos (h i), ih]

theorem turnSleeps_pos_iff (intervalSec : Int32) :
    (∀ running : Nat → Bool, (∀ i, running i = true) → 1 ≤ turnSleeps intervalSec running) ↔
      1 ≤ intervalSec := by
  have hone : (1 : Int32).toInt = 1 := by decide
  constructor
  · intro h
    have hsleeps := h (fun _ => true) fun _ => rfl
    rw [turnSleeps, sleepLoop_running fun _ => rfl] at hsleeps
    rw [Int32.le_iff_toInt_le, hone]
    omega
  · intro h running hrunning
    rw [Int32.le_iff_toInt_le, hone] at h
    rw [turnSleeps, sleepLoop_running hrunning]
    omega

/-! ## The configuration -/

/-- If there is a history, and so a daemon that runs, its operations are defined, and a turn that is
not asked to stop sleeps. -/
structure Config.Safe (cfg : Config) : Prop where
  history : ∀ allocOk rb, ringbufCreateInt cfg.maxSnapshots allocOk = some rb → rb.Safe
  sleeps : ∀ allocOk rb, ringbufCreateInt cfg.maxSnapshots allocOk = some rb →
    ∀ running : Nat → Bool, (∀ i, running i = true) → 1 ≤ turnSleeps cfg.intervalSec running

/-- The numbers are safe. -/
def SafeNumbers (maxSnapshots intervalSec : Int32) : Prop :=
  maxSnapshots < 0 ∨ (1 ≤ maxSnapshots ∧ maxSnapshots ≤ 2 ^ 30 ∧ 1 ≤ intervalSec)

instance (maxSnapshots intervalSec : Int32) : Decidable (SafeNumbers maxSnapshots intervalSec) :=
  inferInstanceAs (Decidable (_ ∨ _))

theorem Config.safe_iff (cfg : Config) :
    cfg.Safe ↔ SafeNumbers cfg.maxSnapshots cfg.intervalSec := by
  by_cases hneg : cfg.maxSnapshots < 0
  · have hnone (allocOk : Bool) : ringbufCreateInt cfg.maxSnapshots allocOk = none :=
      if_pos (.inl hneg)
    refine iff_of_true ⟨fun allocOk rb h => ?_, fun allocOk rb h => ?_⟩ (.inl hneg)
    · rw [hnone] at h
      cases h
    · rw [hnone] at h
      cases h
  · have hcreated {allocOk : Bool} {rb : Ringbuf}
        (h : ringbufCreateInt cfg.maxSnapshots allocOk = some rb) :
        rb = ringbufCreate cfg.maxSnapshots.toInt.toNat := by
      rw [ringbufCreateInt] at h
      split at h
      · cases h
      · exact (Option.some.inj h).symm
    have hcreate : ringbufCreateInt cfg.maxSnapshots true =
        some (ringbufCreate cfg.maxSnapshots.toInt.toNat) :=
      if_neg (not_or.2 ⟨hneg, Bool.noConfusion⟩)
    have hmax := cfg.maxSnapshots.toInt_lt
    have hone : (1 : Int32).toInt = 1 := by decide
    have hlimit : (2 ^ 30 : Int32).toInt = 2 ^ 30 := by decide
    have hsafe := ringbuf_safe_iff (show cfg.maxSnapshots.toInt.toNat < 2 ^ 31 by omega)
    have hnumbers : SafeNumbers cfg.maxSnapshots cfg.intervalSec ↔
        (1 ≤ cfg.maxSnapshots.toInt.toNat ∧ cfg.maxSnapshots.toInt.toNat ≤ 2 ^ 30) ∧
          1 ≤ cfg.intervalSec := by
      rw [SafeNumbers, or_iff_right hneg, ← and_assoc]
      refine and_congr_left fun _ => ?_
      rw [Int32.le_iff_toInt_le, Int32.le_iff_toInt_le, hone, hlimit]
      omega
    rw [hnumbers, ← hsafe, ← turnSleeps_pos_iff]
    constructor
    · intro h
      exact ⟨h.history true _ hcreate, h.sleeps true _ hcreate⟩
    · rintro ⟨hhistory, hsleeps⟩
      refine ⟨fun allocOk rb h => ?_, fun allocOk rb _ => hsleeps⟩
      rw [hcreated h]
      exact hhistory

/-- The number of snapshots in a file, or the default. -/
def snapshotsGiven (file : Option Bytes) : Int32 :=
  givenTo "history" "max_snapshots" (fun val => atoi val.bytes) file 360

/-- The interval on the command line, or in a file, or the default. -/
def secondsGiven (file : Option Bytes) (args : List CStr) : Int32 :=
  intervalGiven args (givenTo "daemon" "interval" (fun val => atoi val.bytes) file 10)

def confArgs : List CStr := [.lit "-f", .lit "--conf=qmem.conf", .lit "-i5"]

end Qmem
