import Qmem.Lib.PoolLinks
import Qmem.Services.Cpuload
import Qmem.Services.Procevent
import Qmem.Services.Procmem

/-!
# That the loops of procmem, cpuload and procevent end

All three keep two tables in one pool, and while a scan goes on the older table leads into entries
that have been written again. The invariant is `Linked`: it says nothing of pids, so a scan may
come upon the same pid twice, fail, or find the pool full.

Main result: `loops_end`.
-/

namespace Qmem

open CLib PoolTable Tables

namespace Procmem

theorem linked_callback {ctx : CollectCtx} (h : ctx.priv.tables.Linked (maxProcs * 2))
    (p : ProcSample) : (collectCallback ctx p).1.priv.tables.Linked (maxProcs * 2) := by
  rw [collectCallback]
  split
  · exact h
  · case isFalse hread =>
    rw [allocEntry]
    by_cases hfull : ctx.priv.tables.poolIdx ≥ maxProcs * 2
    · rw [if_pos hfull]
      exact h
    · rw [if_neg hfull]
      exact h.add (Nat.lt_of_not_le hfull) ProcEntry.pid hashPid _

theorem linked_scan {priv : ProcmemPriv} (h : priv.tables.Linked (maxProcs * 2))
    (dir : Option (List ProcSample)) :
    (procmemScan priv dir).priv.tables.Linked (maxProcs * 2) := by
  cases dir with
  | none => exact h.swap
  | some ps =>
    exact iteratePids_keeps (I := fun ctx : CollectCtx => ctx.priv.tables.Linked (maxProcs * 2))
      (fun _ p hctx => linked_callback hctx p) h.swap ps 0

end Procmem

namespace Cpuload

theorem linked_scanProc {s : Collecting} (h : s.priv.tables.Linked (maxProcs * 2))
    (totalDelta : UInt64) (p : CpuSample) :
    (scanProc totalDelta s p).1.priv.tables.Linked (maxProcs * 2) := by
  rw [scanProc]
  split
  · cases p.stat with
    | none => exact h
    | some st =>
      rw [allocEntry]
      by_cases hfull : s.priv.tables.poolIdx ≥ maxProcs * 2
      · rw [if_pos hfull]
        exact h
      · rw [if_neg hfull]
        exact h.add (Nat.lt_of_not_le hfull) ProcCpu.pid hashPid _
  · exact h

theorem linked_scan {priv : CpuloadPriv} (h : priv.tables.Linked (maxProcs * 2))
    (sys : Option (List UInt64)) (ps : List CpuSample) :
    (cpuloadScan priv sys ps).priv.tables.Linked (maxProcs * 2) :=
  iteratePids_keeps (I := fun s : Collecting => s.priv.tables.Linked (maxProcs * 2))
    (fun _ p hs => linked_scanProc hs _ p) h.swap ps 0

theorem linked_collect {priv : CpuloadPriv} (h : priv.tables.Linked (maxProcs * 2)) (qsort : Qsort)
    (sample : Sample) :
    (cpuloadCollect qsort priv sample).1.tables.Linked (maxProcs * 2) := by
  rw [cpuloadCollect]
  cases sample.dir with
  | none => exact h.swap
  | some ps => exact linked_scan h sample.sys ps

end Cpuload

namespace Procevent

/-- The pass over /proc of `procevent_collect`. -/
def proceventScan (priv : ProceventPriv) (time : Nat → UInt64) (ps : List PidSample) :
    Collecting :=
  (iteratePids (scanPid time) ps
    { priv := { priv with tables := priv.tables.swap }, added := [] } 0).1

theorem linked_scanPid {s : Collecting} (h : s.priv.tables.Linked poolSize) (time : Nat → UInt64)
    (p : PidSample) : (scanPid time s p).1.priv.tables.Linked poolSize := by
  rw [scanPid, allocEntry]
  by_cases hfull : s.priv.tables.poolIdx ≥ poolSize
  · rw [if_pos hfull]
    exact h
  · rw [if_neg hfull]
    have hadd (e : PidEntry) := h.add (Nat.lt_of_not_le hfull) PidEntry.pid hashPid e
    simp only
    split
    · exact hadd _
    · exact hadd _

theorem linked_scan {priv : ProceventPriv} (h : priv.tables.Linked poolSize)
    (time : Nat → UInt64) (ps : List PidSample) :
    (proceventScan priv time ps).priv.tables.Linked poolSize :=
  iteratePids_keeps (I := fun s : Collecting => s.priv.tables.Linked poolSize)
    (fun _ p hs => linked_scanPid hs time p) h.swap ps 0

/-- The walk over the older table changes neither table. -/
theorem exits_tables (time : Nat → UInt64) (is : List Nat) (s : Collecting) :
    (is.foldl (exitPid time) s).priv.tables = s.priv.tables := by
  induction is generalizing s with
  | nil => rfl
  | cons i is ih =>
    rw [List.foldl_cons, ih, exitPid]
    split
    · rfl
    · rfl

theorem linked_collect {priv : ProceventPriv} (h : priv.tables.Linked poolSize) (scan : Scan) :
    (proceventCollect priv scan).1.priv.tables.Linked poolSize := by
  rw [proceventCollect]
  cases scan.dir with
  | none => exact h.swap
  | some ps =>
    have hscan := linked_scan h scan.time ps
    simp only
    split
    · rw [exits_tables]
      exact hscan
    · exact hscan

end Procevent

/-! ## Any collections in any order -/

/-- The services that keep the processes of two scans in one pool. -/
structure PidServices where
  procmem : Procmem.ProcmemPriv
  cpuload : Cpuload.CpuloadPriv
  procevent : Procevent.ProceventPriv

namespace PidServices

/-- One collection of one of them. -/
inductive Collect where
  | procmem (dir : Option (List Procmem.ProcSample))
  | cpuload (sample : Cpuload.Sample)
  | procevent (scan : Procevent.Scan)

def init (ticks : Int64) : PidServices where
  procmem := Procmem.procmemInit
  cpuload := Cpuload.cpuloadInit ticks
  procevent := Procevent.proceventInit

def collect (qsort : Qsort) (s : PidServices) : Collect → PidServices
  | .procmem dir => { s with procmem := Procmem.procmemCollect qsort s.procmem dir }
  | .cpuload sample => { s with cpuload := (Cpuload.cpuloadCollect qsort s.cpuload sample).1 }
  | .procevent scan => { s with procevent := (Procevent.proceventCollect s.procevent scan).1.priv }

def run (qsort : Qsort) (ticks : Int64) (collects : List Collect) : PidServices :=
  collects.foldl (collect qsort) (init ticks)

/-- In the middle of a collection: the tables have been swapped, and the scan has come as far as
the first `k` processes. -/
def during (s : PidServices) (k : Nat) : Collect → PidServices
  | .procmem dir =>
    { s with procmem := (Procmem.procmemScan s.procmem (dir.map (·.take k))).priv }
  | .cpuload sample =>
    { s with cpuload :=
        (Cpuload.cpuloadScan s.cpuload sample.sys ((sample.dir.getD []).take k)).priv }
  | .procevent scan =>
    { s with procevent :=
        (Procevent.proceventScan s.procevent scan.time ((scan.dir.getD []).take k)).priv }

/-- In the walk of `procevent_collect` over the older table, `k` entries later. -/
def duringExits (s : PidServices) (k : Nat) (scan : Procevent.Scan) : PidServices :=
  let scanned := Procevent.proceventScan s.procevent scan.time (scan.dir.getD [])
  { s with procevent :=
      (((Procevent.prevEntries scanned.priv).take k).foldl (Procevent.exitPid scan.time)
        scanned).priv }

structure Linked (s : PidServices) : Prop where
  procmem : s.procmem.tables.Linked (Procmem.maxProcs * 2)
  cpuload : s.cpuload.tables.Linked (Cpuload.maxProcs * 2)
  procevent : s.procevent.tables.Linked Procevent.poolSize

theorem linked_init (ticks : Int64) : (init ticks).Linked :=
  ⟨Tables.Linked.init _, Tables.Linked.init _, Tables.Linked.init _⟩

theorem Linked.collect {s : PidServices} (h : s.Linked) (qsort : Qsort) (c : Collect) :
    (s.collect qsort c).Linked := by
  cases c with
  | procmem dir => exact ⟨Procmem.linked_scan h.procmem dir, h.cpuload, h.procevent⟩
  | cpuload sample => exact ⟨h.procmem, Cpuload.linked_collect h.cpuload qsort sample, h.procevent⟩
  | procevent scan => exact ⟨h.procmem, h.cpuload, Procevent.linked_collect h.procevent scan⟩

theorem Linked.during {s : PidServices} (h : s.Linked) (k : Nat) (c : Collect) :
    (s.during k c).Linked := by
  cases c with
  | procmem dir => exact ⟨Procmem.linked_scan h.procmem _, h.cpuload, h.procevent⟩
  | cpuload sample => exact ⟨h.procmem, Cpuload.linked_scan h.cpuload sample.sys _, h.procevent⟩
  | procevent scan => exact ⟨h.procmem, h.cpuload, Procevent.linked_scan h.procevent scan.time _⟩

theorem Linked.duringExits {s : PidServices} (h : s.Linked) (k : Nat) (scan : Procevent.Scan) :
    (s.duringExits k scan).Linked := by
  refine ⟨h.procmem, h.cpuload, ?_⟩
  rw [PidServices.duringExits, Procevent.exits_tables]
  exact Procevent.linked_scan h.procevent scan.time _

theorem linked_run (qsort : Qsort) (ticks : Int64) (collects : List Collect) :
    (run qsort ticks collects).Linked := by
  induction collects using List.reverseRecOn with
  | nil => exact linked_init ticks
  | append_singleton collects c ih =>
    rw [run, List.foldl_append]
    exact ih.collect qsort c

/-- A state in which collections can leave the services, between two of them or in the middle of
one. -/
inductive Reached (qsort : Qsort) (ticks : Int64) : PidServices → Prop where
  | between (collects : List Collect) : Reached qsort ticks (run qsort ticks collects)
  | scanning (collects : List Collect) (c : Collect) (k : Nat) :
      Reached qsort ticks ((run qsort ticks collects).during k c)
  | exits (collects : List Collect) (scan : Procevent.Scan) (k : Nat) :
      Reached qsort ticks ((run qsort ticks collects).duringExits k scan)

theorem Reached.linked {qsort : Qsort} {ticks : Int64} {s : PidServices}
    (h : Reached qsort ticks s) : s.Linked := by
  cases h with
  | between collects => exact linked_run qsort ticks collects
  | scanning collects c k => exact (linked_run qsort ticks collects).during k c
  | exits collects scan k => exact (linked_run qsort ticks collects).duringExits k scan

/-- The loops end, now and when the next entry has been taken but is in no table yet. -/
def LoopsEnd {α : Type} (pid : α → Int32) (hash : Int32 → Nat) (size : Nat) (t : Tables α) : Prop :=
  t.Ends pid hash size ∧
    ∀ (e : α) (cleared : Bool), t.poolIdx < size → (t.taken e cleared).Ends pid hash size

theorem loopsEnd_of_linked {α : Type} {t : Tables α} {size : Nat} (h : t.Linked size)
    (pid : α → Int32) (hash : Int32 → Nat) : LoopsEnd pid hash size t :=
  ⟨h.ends pid hash, fun e cleared hroom => (h.taken hroom e cleared).ends pid hash⟩

/-- **Every search in the tables of procmem, cpuload and procevent ends**, and so does every walk
along their entries, in every state that any collections lead to or pass through. -/
theorem loops_end (qsort : Qsort) (ticks : Int64) (s : PidServices)
    (h : Reached qsort ticks s) :
    LoopsEnd Procmem.ProcEntry.pid Procmem.hashPid (Procmem.maxProcs * 2) s.procmem.tables ∧
      LoopsEnd Cpuload.ProcCpu.pid Cpuload.hashPid (Cpuload.maxProcs * 2) s.cpuload.tables ∧
      LoopsEnd Procevent.PidEntry.pid Procevent.hashPid Procevent.poolSize s.procevent.tables :=
  ⟨loopsEnd_of_linked h.linked.procmem _ _, loopsEnd_of_linked h.linked.cpuload _ _,
    loopsEnd_of_linked h.linked.procevent _ _⟩

/-- Two processes of one bucket. -/
def sharedBucket : Procevent.Scan where
  dir := some [{ pid := 1, comm := none }, { pid := 4097, comm := none }]
  time _ := 0

/-- The second scan has written the first entry again, the head of the older table's chain leads
to the second. -/
theorem loops_end_shared :
    LoopsEnd Procmem.ProcEntry.pid Procmem.hashPid (Procmem.maxProcs * 2)
        ((run .merge 100 [.procevent sharedBucket]).during 1
          (.procevent sharedBucket)).procmem.tables ∧
      LoopsEnd Cpuload.ProcCpu.pid Cpuload.hashPid (Cpuload.maxProcs * 2)
        ((run .merge 100 [.procevent sharedBucket]).during 1
          (.procevent sharedBucket)).cpuload.tables ∧
      LoopsEnd Procevent.PidEntry.pid Procevent.hashPid Procevent.poolSize
        ((run .merge 100 [.procevent sharedBucket]).during 1
          (.procevent sharedBucket)).procevent.tables :=
  loops_end .merge 100 _ (.scanning [.procevent sharedBucket] (.procevent sharedBucket) 1)

end PidServices

end Qmem
