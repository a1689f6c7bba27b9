import Qmem.Daemon.Cycle
import Qmem.Daemon.History

/-!
# The history of a run (`daemon/daemon.c`)

What a cycle leaves in `g_current_snapshot` depends on its calls and on nothing that was there
before, and the history is the list of the last of these texts. A push that finds no memory is not
in it, and takes the text of the oldest entry once there are as many as there may be.

Main result: `history_follows_cycles`.
-/

namespace Qmem

open CLib Json Qmem.Tree

/-! ## The text of a cycle -/

/-- The tokens before the first that does not fit, with a NUL, into what is left. -/
def fitting (room : Nat) : List Bytes → Bytes
  | [] => []
  | t :: ts => if t.length < room then t ++ fitting (room - t.length) ts else []

/-- What the builder writes into a snapshot buffer. -/
def Cycle.text (printG : ℚ → CStr) (c : Cycle) : Bytes :=
  fitting snapshotSize (callTokens printG false c.calls)

theorem Wrote.taken {ts : List Bytes} {j : JsonBuilder} (h : Wrote ts j)
    (herror : j.error = false) : j.buf.take j.pos = ts.flatten := by
  obtain ⟨k, -, htake, hall⟩ := h.written
  rw [htake, hall herror, List.take_length]

theorem writeAll_taken {before : List Bytes} {j : JsonBuilder} (h : Wrote before j)
    (herror : j.error = false) (ts : List Bytes) :
    (writeAll ts j).buf.take (writeAll ts j).pos =
      before.flatten ++ fitting (j.size - j.pos) ts := by
  induction ts generalizing before j with
  | nil => rw [writeAll_nil, h.taken herror, fitting, List.append_nil]
  | cons t ts ih =>
    rw [writeAll_cons]
    by_cases hfit : j.pos + t.length ≥ j.size
    · have hfull : jsonWrite j t = { j with error := true } := by simp [jsonWrite, herror, hfit]
      rw [hfull, writeAll_error rfl, fitting, if_neg (by omega), List.append_nil]
      exact h.taken herror
    · have hwritten : (jsonWrite j t).error = false ∧ (jsonWrite j t).size = j.size ∧
          (jsonWrite j t).pos = j.pos + t.length := by simp [jsonWrite, herror, hfit]
      obtain ⟨hok, hsize, hpos⟩ := hwritten
      rw [ih (wrote_jsonWrite h t) hok, hsize, hpos, fitting, if_pos (by omega), Nat.sub_add_eq]
      simp

variable {printG : ℚ → CStr} {d : Daemon} {c : Cycle}

/-- The text in the buffer does not depend on what was there. -/
theorem cycle_taken (h : d.Valid) (c : Cycle) :
    let j := runCalls printG c.calls (jsonInit d.currentSnapshot snapshotSize)
    j.buf.take (jsonLength j) = c.text printG := by
  intro j
  have hbuf := h.snapshot_length
  have hpos : 1 ≤ d.currentSnapshot.length := by
    rw [hbuf]
    decide
  have htaken := writeAll_taken (wrote_jsonInit hpos) rfl (callTokens printG false c.calls)
  rw [hbuf] at htaken
  have hj : j.buf.take (jsonLength j) = _ := congrArg
    (fun j : JsonBuilder => j.buf.take (jsonLength j))
    (runCalls_eq printG c.calls (jsonInit d.currentSnapshot snapshotSize))
  rw [hj]
  exact htaken

theorem cycle_snapshot (h : d.Valid) (c : Cycle) :
    (getSnapshotCallback (daemonCycle printG d c).currentSnapshot).bytes = c.text printG := by
  rw [← cycle_taken h c]
  exact cycle_text printG h c

/-! ## The entries -/

/-- What the history makes of a cycle: its entries, the oldest first. -/
def remember (printG : ℚ → CStr) (capacity : Nat) (entries : List RingbufEntry) (c : Cycle) :
    List RingbufEntry :=
  if c.mallocOk then
    (if entries.length < capacity then entries else entries.tail) ++
      [pushed (c.text printG) c.now]
  else if entries.length < capacity then entries
  else entries.modifyHead fun entry => { entry with data := none }

section

variable {capacity : Nat} {items : List RingbufEntry} {rb : Ringbuf}

theorem Ringbuf.Holds.push (hpos : 1 ≤ capacity) (h : rb.Holds capacity items) {data text : Bytes}
    {size : Nat} (htext : data.take size = text) (hsize : text.length = size) (now : Int64) :
    (ringbufPush rb data size true now).1.Holds capacity (items ++ [pushed text now]) := by
  refine ⟨?_, ?_⟩
  · rw [List.length_append, List.length_singleton]
    exact h.counts.push data size true now
  · have hkeeps := h.keeps.push hpos (pushed text now)
    rw [← h.counts.head_eq] at hkeeps
    simpa only [ringbufPush, if_true, pushed, htext, hsize] using hkeeps

/-- A push that finds no memory has freed the text of the entry that comes next. -/
theorem Ringbuf.Holds.push_fails (h : rb.Holds capacity items) (data : Bytes) (size : Nat)
    (now : Int64) :
    (ringbufPush rb data size false now).1.Holds capacity
      (if items.length < capacity then items
      else items.modify (items.length - capacity) fun entry => { entry with data := none }) := by
  refine ⟨?_, ?_⟩
  · have hlength : (if items.length < capacity then items
        else items.modify (items.length - capacity)
          fun entry => { entry with data := none }).length = items.length := by
      split <;> simp
    rw [hlength]
    exact h.counts.push data size false now
  · have hkeeps := h.keeps.modify fun entry => { entry with data := none }
    rw [← h.counts.head_eq] at hkeeps
    exact hkeeps

end

/-- The history holds these entries. -/
def Ringbuf.Remembers (capacity : Nat) (entries : List RingbufEntry) (rb : Ringbuf) : Prop :=
  ∃ items, rb.Holds capacity items ∧ entries = Ring.last capacity items

theorem remembers_cycle {capacity : Nat} (hpos : 1 ≤ capacity) {entries : List RingbufEntry}
    (hvalid : d.Valid) (h : d.history.Remembers capacity entries) (c : Cycle) :
    (daemonCycle printG d c).history.Remembers capacity (remember printG capacity entries c) := by
  obtain ⟨items, hholds, rfl⟩ := h
  let j := runCalls printG c.calls (jsonInit d.currentSnapshot snapshotSize)
  have htaken : j.buf.take (jsonLength j) = c.text printG := cycle_taken hvalid c
  have hlength : (c.text printG).length = jsonLength j := by
    have hw := wrote_runCalls printG d.currentSnapshot
      (by rw [hvalid.snapshot_length]; decide) c.calls
    rw [hvalid.snapshot_length] at hw
    rw [← htaken]
    exact hw.pos_length
  by_cases hmalloc : c.mallocOk = true
  · refine ⟨items ++ [pushed (c.text printG) c.now], ?_, ?_⟩
    · simp only [daemonCycle, hmalloc]
      exact hholds.push hpos htaken hlength c.now
    · rw [remember, if_pos hmalloc, Ring.last_push hpos]
  · have hmalloc : c.mallocOk = false := by simpa using hmalloc
    have hfails := hholds.push_fails j.buf (jsonLength j) c.now
    refine ⟨_, by simpa only [daemonCycle, hmalloc] using hfails, ?_⟩
    rw [remember, hmalloc, if_neg Bool.false_ne_true, Ring.length_last]
    by_cases hroom : items.length < capacity
    · rw [if_pos hroom, if_pos (by omega)]
    · rw [if_neg hroom, if_neg (by omega), Ring.last_modify (by omega)]

theorem Ringbuf.Remembers.shows {capacity : Nat} (hpos : 1 ≤ capacity) (hmax : capacity ≤ 2 ^ 30)
    {entries : List RingbufEntry} {rb : Ringbuf} (h : rb.Remembers capacity entries) :
    rb.Shows capacity entries := by
  obtain ⟨items, hholds, rfl⟩ := h
  have hshows := hholds.shows hpos hmax
  have hlast : (Ring.last capacity items).drop ((Ring.last capacity items).length - capacity) =
      items.drop (items.length - capacity) := Ring.last_last capacity items
  refine ⟨?_, fun index => ?_, fun index => ?_, hshows.same, hshows.distinct⟩
  · rw [hshows.count, Ring.length_last]
    omega
  · rw [hlast]
    exact hshows.get index
  · rw [hlast]
    exact hshows.recent index

/-- **The history of a run**: `ringbuf_count`, `ringbuf_get` and `ringbuf_get_recent` say what the
list of the remembered entries says, and `get_snapshot_callback` returns the text of the last
cycle. -/
theorem history_follows_cycles (printG : ℚ → CStr) {maxSnapshots : Nat} (hpos : 1 ≤ maxSnapshots)
    (hmax : maxSnapshots ≤ 2 ^ 30) (cycles : List Cycle) :
    let d := Daemon.after printG maxSnapshots cycles
    d.history.Shows maxSnapshots (cycles.foldl (remember printG maxSnapshots) []) ∧
      ∀ c ∈ cycles.getLast?,
        (getSnapshotCallback d.currentSnapshot).bytes = c.text printG := by
  have hrun : (Daemon.after printG maxSnapshots cycles).Valid ∧
      (Daemon.after printG maxSnapshots cycles).history.Remembers maxSnapshots
        (cycles.foldl (remember printG maxSnapshots) []) := by
    induction cycles using List.reverseRecOn with
    | nil => exact ⟨Daemon.valid_init hpos, [], .create maxSnapshots, List.drop_nil.symm⟩
    | append_singleton cycles c ih =>
      rw [Daemon.after, Run.state_append, List.foldl_append]
      exact ⟨ih.1.cycle c, remembers_cycle hpos ih.1 ih.2 c⟩
  refine ⟨hrun.2.shows hpos hmax, fun c hc => ?_⟩
  obtain ⟨before, rfl⟩ := List.getLast?_eq_some_iff.1 hc
  have hvalid : (Daemon.after printG maxSnapshots before).Valid :=
    Run.invariant (Daemon.valid_init hpos) (fun _ c h => h.cycle c) before
  rw [Daemon.after, Run.state_append]
  exact cycle_snapshot hvalid c

/-- The second cycle finds no memory, and the history has room for one entry. -/
theorem history_follows_cycles_lost :
    let cycles := [vmstatCycle, { vmstatCycle with mallocOk := false }]
    (Daemon.after (numText noDoubles) 1 cycles).history.Shows 1
      [{ pushed (vmstatCycle.text (numText noDoubles)) vmstatCycle.now with data := none }] :=
  (history_follows_cycles (numText noDoubles) (by decide) (by decide)
    [vmstatCycle, { vmstatCycle with mallocOk := false }]).1

end Qmem
