import Qmem.Daemon.Cycle

/-!
# Requests during a cycle (`daemon/daemon.c`, `daemon/ipc_server.c`, `web/api.c`)

The main thread builds each snapshot in the very buffer that `get_snapshot_callback` hands out,
call by call; the two servers may ask for it after any of these calls. What they get is a
document only between two cycles: `served_right_iff`.
-/

namespace Qmem

open CLib Json Qmem.Tree

/-- Both requests ask `get_snapshot_callback`. -/
inductive Request where
  | ipcSnapshot
  | httpStatus

/-- What a handler writes into `http_response_t`. -/
structure HttpResponse where
  statusCode : Int32
  contentType : CStr
  body : CStr

/-- `handle_api_status`, for `g_snapshot_cb` and what it returns (each may be NULL); `resp` holds
the defaults. -/
def handleApiStatus (snapshotCb : Option (Option CStr)) (resp : HttpResponse) : HttpResponse :=
  match snapshotCb with
  | some (some snapshot) => {
      statusCode := 200, contentType := .lit "application/json", body := snapshot }
  | _ => { resp with
      statusCode := 503, body := .lit "\x7b\"error\":\"No data available\"\x7d" }

/-- What happens next: the main thread takes a step, or a request is served. -/
inductive Event where
  | step
  | request (r : Request)

/-- The main thread in the loop of `daemon_run`. The builder's buffer is `g_current_snapshot`, also
before there is a builder; `todo` are the calls that the cycle begun last has yet to make. -/
structure Moment where
  json : JsonBuilder
  todo : List (JsonCall ℚ)
  begun : List Cycle
  coming : List Cycle

namespace Moment

def start (coming : List Cycle) : Moment where
  json := {
    buf := List.replicate snapshotSize 0
    size := 0, pos := 0, depth := 0, needsComma := false, error := false }
  todo := []
  begun := []
  coming := coming

/-- A builder call, or `json_init` of the next cycle. -/
def step (printG : ℚ → CStr) (m : Moment) : Moment :=
  match m.todo, m.coming with
  | call :: todo, _ => { m with json := call.run printG m.json, todo := todo }
  | [], c :: coming => {
      json := jsonInit m.json.buf snapshotSize
      todo := c.calls
      begun := c :: m.begun
      coming := coming }
  | [], [] => m

def next (printG : ℚ → CStr) (m : Moment) : Event → Moment
  | .step => m.step printG
  | .request _ => m

/-- After some events. -/
abbrev after (printG : ℚ → CStr) (cycles : List Cycle) (events : List Event) : Moment :=
  Run.state (next printG) (start cycles) events

/-- What a request gets. -/
def snapshot (m : Moment) : CStr := getSnapshotCallback m.json.buf

/-- The cycle begun last. -/
def current (m : Moment) : Option Cycle := m.begun.head?

def lastFinished (m : Moment) : Option Cycle :=
  if m.todo.isEmpty then m.begun.head? else m.begun.tail.head?

/-- A request gets a complete document, that of the current cycle or of the last finished one. -/
structure Right (printG : ℚ → CStr) (m : Moment) : Prop where
  wellFormed : WellFormed m.snapshot.bytes
  whose : ∃ c, (m.current = some c ∨ m.lastFinished = some c) ∧
    m.snapshot.bytes = unboundedText printG c.calls

/-- A cycle has made all its calls and the next has not begun. -/
def Between (m : Moment) : Prop :=
  m.todo = [] ∧ ∃ c, m.current = some c ∧ c.PlainNames

/-! ## A cycle, step by step -/

/-- Left alone, the main thread makes the calls it has to make. -/
theorem steps_todo (printG : ℚ → CStr) (json : JsonBuilder) (todo : List (JsonCall ℚ))
    (begun coming : List Cycle) :
    Run.state (next printG) ⟨json, todo, begun, coming⟩ (List.replicate todo.length .step) =
      ⟨runCalls printG todo json, [], begun, coming⟩ := by
  induction todo generalizing json with
  | nil => rfl
  | cons call todo ih =>
    rw [List.length_cons, List.replicate_succ, Run.state_cons, runCalls_cons, ← ih]
    rfl

/-- It does what `daemonCycle` says. -/
theorem steps_cycle (printG : ℚ → CStr) {m : Moment} {c : Cycle} {rest : List Cycle}
    (htodo : m.todo = []) (hcoming : m.coming = c :: rest) (history : Ringbuf) :
    ∃ json, Run.state (next printG) m (List.replicate (c.calls.length + 1) .step) =
        ⟨json, [], c :: m.begun, rest⟩ ∧
      json.buf = (daemonCycle printG ⟨m.json.buf, history⟩ c).currentSnapshot := by
  obtain ⟨json, todo, begun, coming⟩ := m
  subst htodo hcoming
  refine ⟨runCalls printG c.calls (jsonInit json.buf snapshotSize), ?_, ?_⟩
  · rw [List.replicate_succ, Run.state_cons, ← steps_todo]
    rfl
  · simp only [daemonCycle]

/-! ## What the buffer holds -/

/-- The buffer holds what the calls made so far have written. -/
def Building (printG : ℚ → CStr) (m : Moment) (c : Cycle) : Prop :=
  ∃ made buf, made ++ m.todo = c.calls ∧ buf.length = snapshotSize ∧
    m.json = runCalls printG made (jsonInit buf snapshotSize)

/-- What every event keeps; `P` is some property of all cycles. -/
structure Valid (printG : ℚ → CStr) (P : Cycle → Prop) (m : Moment) : Prop where
  begun : ∀ c ∈ m.begun, P c
  coming : ∀ c ∈ m.coming, P c
  buf_length : m.json.buf.length = snapshotSize
  idle : m.current = none → m.todo = [] ∧ m.snapshot.bytes = []
  building : ∀ c, m.current = some c → m.Building printG c

variable {printG : ℚ → CStr} {P : Cycle → Prop} {m : Moment}

theorem Building.buf_length {c : Cycle} (h : m.Building printG c) :
    m.json.buf.length = snapshotSize := by
  obtain ⟨made, buf, -, hlen, hjson⟩ := h
  have hw := wrote_runCalls printG buf (by rw [hlen]; decide) made
  rw [hlen, ← hjson] at hw
  rw [hw.buf_length, hjson, runCalls_size]
  rfl

theorem valid_start {cycles : List Cycle} (h : ∀ c ∈ cycles, P c) :
    (start cycles).Valid printG P where
  begun c hc := absurd hc (by simp [start])
  coming := h
  buf_length := List.length_replicate
  idle _ := ⟨rfl, cstr_bytes_of_append (n := 0) (by simp)
    (by rw [start, List.getElem?_replicate]; rfl)⟩
  building c hc := absurd hc (by simp [start, current])

theorem Valid.step (h : m.Valid printG P) : (m.step printG).Valid printG P := by
  unfold Moment.step
  split
  · rename_i call todo htodo
    cases hcur : m.current with
    | none =>
      rw [(h.idle hcur).1] at htodo
      cases htodo
    | some c =>
      obtain ⟨made, buf, hcalls, hlen, hjson⟩ := h.building c hcur
      have hbuilding : Building printG
          { m with json := call.run printG m.json, todo := todo } c := by
        refine ⟨made ++ [call], buf, ?_, hlen, ?_⟩
        · rw [List.append_assoc, List.singleton_append, ← htodo]
          exact hcalls
        · show call.run printG m.json = _
          rw [runCalls_append, ← hjson]
          rfl
      refine ⟨h.begun, h.coming, hbuilding.buf_length, fun hnone => ?_, fun d hd => ?_⟩
      · exact absurd (hcur.symm.trans hnone) (by simp)
      · rw [← Option.some.inj (hcur.symm.trans hd)]
        exact hbuilding
  · rename_i c coming _ hcoming
    have hbuilding : Building printG {
        json := jsonInit m.json.buf snapshotSize
        todo := c.calls
        begun := c :: m.begun
        coming := coming } c := ⟨[], m.json.buf, rfl, h.buf_length, rfl⟩
    have hc : P c := h.coming c (by rw [hcoming]; exact List.mem_cons_self)
    refine ⟨?_, ?_, hbuilding.buf_length, fun hnone => absurd hnone (by simp [current]), ?_⟩
    · exact List.forall_mem_cons.2 ⟨hc, h.begun⟩
    · exact fun d hd => h.coming d (by rw [hcoming]; exact List.mem_cons_of_mem _ hd)
    · intro d hd
      rw [← Option.some.inj hd]
      exact hbuilding
  · exact h

theorem Valid.next (h : m.Valid printG P) (e : Event) : (m.next printG e).Valid printG P := by
  cases e with
  | step => exact h.step
  | request r => exact h

theorem valid_after {cycles : List Cycle} (h : ∀ c ∈ cycles, P c) (events : List Event) :
    (after printG cycles events).Valid printG P :=
  Run.invariant (valid_start h) (fun _ e hm => hm.next e) events

/-! ## What a request gets -/

/-- The last call of a cycle closes the document, so as long as there is a call to make there is
something to write. -/
theorem todo_text_ne_nil {c : Cycle} {made todo : List (JsonCall ℚ)} (b : Bool)
    (hcalls : made ++ todo = c.calls) (htodo : todo ≠ []) :
    (callTokens printG b todo).flatten ≠ [] := by
  obtain ⟨front, last, rfl⟩ := (List.eq_nil_or_concat' todo).resolve_left htodo
  have hlast : last = .objectEnd := by
    rw [Cycle.calls, svcManagerSnapshotAll, objectCalls, ← List.cons_append,
      ← List.append_assoc] at hcalls
    exact List.singleton_inj.1 (List.append_inj_right' hcalls rfl)
  rw [callTokens_append, hlast, List.flatten_append]
  exact List.append_ne_nil_of_right_ne_nil _ (by simp [JsonCall.tokens])

/-- **A request gets a complete document** exactly between two cycles. -/
theorem Valid.right_iff {num : ℚ → NumLit}
    (h : m.Valid (numText num) fun c =>
      WriteValues c.snapshot c.registry ∧
        (unboundedText (numText num) c.calls).length < snapshotSize) :
    m.Right (numText num) ↔ m.Between := by
  cases hcur : m.current with
  | none =>
    -- nothing has been written yet, and the empty text is no document
    constructor
    · intro hright
      have hwf := hright.wellFormed
      rw [(h.idle hcur).2] at hwf
      exact absurd hwf (by decide)
    · rintro ⟨-, c, hc, -⟩
      rw [hcur] at hc
      cases hc
  | some c =>
    obtain ⟨made, buf, hcalls, hlen, hjson⟩ := h.building c hcur
    obtain ⟨hwrite, hfits⟩ := h.begun c (List.mem_of_mem_head? hcur)
    obtain ⟨ms, hms, -⟩ := snapshotAll_emits hwrite c.now
    have hobj : EmitsObject (sanitize c.calls) := ⟨_, hms⟩
    have hsplit : unboundedText (numText num) c.calls = unboundedText (numText num) made ++
        (callTokens (numText num) (commaAfter false made) m.todo).flatten := by
      rw [← hcalls, unboundedText, callTokens_append, List.flatten_append]
      rfl
    have htext : m.snapshot.bytes = unboundedText (numText num) made := by
      have hshort : (unboundedText (numText num) made).length < buf.length := by
        rw [hsplit, List.length_append] at hfits
        omega
      have hrun := (runCalls_text_of_fits (numText num) buf made hshort).1
      rw [hlen, ← hjson] at hrun
      exact hrun
    by_cases htodo : m.todo = []
    · rw [htodo, List.append_nil] at hcalls
      rw [hcalls] at htext
      have hwf := wellFormed_text_iff num hobj
      rw [← htext] at hwf
      have hnames : PlainKeys c.calls ↔ c.PlainNames := plainKeys_snapshotAll hwrite c.now
      constructor
      · intro hright
        exact ⟨htodo, c, hcur, hnames.1 (hwf.1 hright.wellFormed)⟩
      · rintro ⟨-, d, hd, hplain⟩
        rw [← Option.some.inj (hcur.symm.trans hd)] at hplain
        exact ⟨hwf.2 (hnames.2 hplain), c, Or.inl hcur, htext⟩
    · -- a first part of a document is none
      constructor
      · intro hright
        refine absurd hright.wellFormed ?_
        rw [htext]
        exact not_wellFormed_of_cut_text num hobj hsplit (todo_text_ne_nil _ hcalls htodo)
      · intro hbetween
        exact absurd hbetween.1 htodo

end Moment

/-- **A request of a run gets a complete document** exactly when it comes after the first cycle
and not during one (and no name spoils the document). -/
theorem served_right_iff (num : ℚ → NumLit) (cycles : List Cycle)
    (hwrite : ∀ c ∈ cycles, WriteValues c.snapshot c.registry)
    (hfits : ∀ c ∈ cycles, (unboundedText (numText num) c.calls).length < snapshotSize)
    (events : List Event) :
    ∀ k r, events[k]? = some (.request r) →
      ((Moment.after (numText num) cycles (events.take k)).Right (numText num) ↔
        (Moment.after (numText num) cycles (events.take k)).Between) :=
  fun k _ _ =>
    (Moment.valid_after (fun c hc => ⟨hwrite c hc, hfits c hc⟩) (events.take k)).right_iff

/-- A request right after the only cycle. -/
theorem served_right_iff_vmstat :
    (Moment.after (numText fun _ => .ofInt 0) [vmstatCycle]
      (List.replicate (vmstatCycle.calls.length + 1) .step)).Right
        (numText fun _ => .ofInt 0) := by
  obtain ⟨json, hsteps, -⟩ := Moment.steps_cycle (numText fun _ => .ofInt 0)
    (m := Moment.start [vmstatCycle]) rfl rfl (ringbufCreate 1)
  have hright := served_right_iff (fun _ => .ofInt 0) [vmstatCycle]
    (fun c hc => by
      rw [List.mem_singleton.1 hc]
      exact vmstatCycle_writes)
    (fun c hc => by
      rw [List.mem_singleton.1 hc]
      exact vmstatCycle_fits.length)
    (List.replicate (vmstatCycle.calls.length + 1) .step ++ [.request .ipcSnapshot])
    (vmstatCycle.calls.length + 1) .ipcSnapshot
    (by rw [List.getElem?_append_right (by simp)]; simp)
  rw [List.take_left' (by simp)] at hright
  refine hright.2 ?_
  rw [Moment.after, hsteps]
  exact ⟨rfl, vmstatCycle, rfl, vmstatCycle_fits.names⟩

/-- **A request before the first cycle gets an empty text**, over HTTP with the status 200. -/
theorem empty_snapshot_served :
    let m := Moment.after (numText fun _ => .ofInt 0) [vmstatCycle] []
    (∀ resp, (handleApiStatus (some (some m.snapshot)) resp).statusCode = 200) ∧
      m.snapshot.bytes = [] ∧ ¬ m.Right (numText fun _ => .ofInt 0) := by
  intro m
  have hvalid : m.Valid (numText fun _ => .ofInt 0) fun _ => True :=
    Moment.valid_after (fun _ _ => trivial) []
  have hempty : m.snapshot.bytes = [] := (hvalid.idle rfl).2
  refine ⟨fun _ => rfl, hempty, fun hright => ?_⟩
  have hwf := hright.wellFormed
  rw [hempty] at hwf
  exact absurd hwf (by decide)

end Qmem
