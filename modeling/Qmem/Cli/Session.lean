import Qmem.Cli.Client
import Qmem.Cli.StatusFile
import Qmem.Daemon.CycleHistory

/-!
# From `/proc/meminfo` through the daemon to the terminal

The whole way: the service reads the file, the cycle writes the snapshot into its buffer, the
server puts it into a frame, the client takes it out again, and the command looks for its numbers
in the text.

Main result: `qmemctl_status_follows`.
-/

namespace Qmem

open CLib Meminfo

/-- Tokens that all fit are all written. -/
theorem fitting_eq_flatten {room : Nat} {ts : List Bytes} (h : ts.flatten.length < room) :
    fitting room ts = ts.flatten := by
  induction ts generalizing room with
  | nil => rfl
  | cons t ts ih =>
    rw [List.flatten_cons, List.length_append] at h
    have hrest : ts.flatten.length < room - t.length := by omega
    rw [fitting, if_pos (by omega), ih hrest, List.flatten_cons]

section

variable {printG : ℚ → CStr} {qsort : Qsort} {ss : List ServiceState} {c : Cycle}
  {historyCb : Option (Int32 → Option CStr)} {stack response : Bytes}

/-- The server of a daemon, as a client meets it between two cycles. -/
def Daemon.serve (historyCb : Option (Int32 → Option CStr)) (stack : Bytes) (d : Daemon) :
    Bytes → Bytes :=
  handleClient (some (some (getSnapshotCallback d.currentSnapshot))) historyCb stack

/-- **A client gets the document of the last cycle**, if that leaves room for the header of the
answer, whatever was in the snapshot buffer before. -/
theorem fetched_document {maxSnapshots : Nat} (hpos : 1 ≤ maxSnapshots) (before : List Cycle)
    (hcalls : c.calls = documentCalls qsort c.now ss)
    (hfits : (document printG qsort c.now ss).length < payloadSize)
    (hresponse : response.length = clientResponseSize) :
    ∃ text, clientGetSnapshot
        (some ((Daemon.after printG maxSnapshots (before ++ [c])).serve historyCb stack))
        response = some text ∧ text.bytes = document printG qsort c.now ss := by
  have hvalid : (Daemon.after printG maxSnapshots before).Valid :=
    Run.invariant (Daemon.valid_init hpos) (fun _ c h => h.cycle c) before
  have hbuffer : (callTokens printG false (documentCalls qsort c.now ss)).flatten.length <
      snapshotSize := lt_trans hfits (by decide)
  have htext : (getSnapshotCallback
      (Daemon.after printG maxSnapshots (before ++ [c])).currentSnapshot).bytes =
        document printG qsort c.now ss := by
    rw [Daemon.after, Run.state_append]
    calc (getSnapshotCallback (daemonCycle printG _ c).currentSnapshot).bytes
        = c.text printG := cycle_snapshot hvalid c
      _ = document printG qsort c.now ss := by
        rw [Cycle.text, hcalls, fitting_eq_flatten hbuffer]
        rfl
  refine ⟨_, ?_, htext⟩
  rw [Daemon.serve, clientGetSnapshot_eq _ hresponse, payloadOf, htext, if_pos hfits]

end

/-- One line, which is all there is in the file. -/
def oneEntry : List MeminfoEntry := [kbEntry ⟨(CStr.lit "MemAvailable").bytes, by decide, by decide⟩
  ⟨(CStr.lit "2048").bytes, by decide, by decide⟩]

/-- The service after a read that failed and one that did not. -/
def secondRead : ServiceState :=
  .meminfo (meminfoCollects [⟨none, []⟩, ⟨some [.data (entriesText true oneEntry)], []⟩])

def meminfoCycle : Cycle where
  registry := .of [{ vmstatService with name := .lit "meminfo" }]
  snapshot _ := secondRead.snapshot .merge
  now := 17
  mallocOk := true

end Qmem
