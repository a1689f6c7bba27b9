import Qmem.Daemon.Ringbuffer
import Qmem.Daemon.SnapshotAll
import Qmem.Lib.Run

/-!
# The daemon's cycle (`daemon/daemon.c`)

A cycle builds the snapshot in its one buffer and pushes what it built into the history. Nothing
looks at the builder's error flag, so a snapshot that does not fit is published as far as it got:
`published_iff`.
-/

namespace Qmem

open CLib Json Qmem.Tree

/-- `sizeof(g_current_snapshot)`. -/
def snapshotSize : Nat := 256 * 1024

/-- `g_current_snapshot` and `g_history`. -/
structure Daemon where
  currentSnapshot : Bytes
  history : Ringbuf

/-- What a cycle meets after `svc_manager_collect_all`: the registry, what the snapshot functions
write, the time, and whether the history finds memory. -/
structure Cycle where
  registry : Registry
  snapshot : Service → List (JsonCall ℚ)
  now : Int64
  mallocOk : Bool

/-- The part of `daemon_init` that matters here. -/
def daemonInit (maxSnapshots : Nat) : Daemon where
  currentSnapshot := List.replicate snapshotSize 0
  history := ringbufCreate maxSnapshots

def Cycle.calls (c : Cycle) : List (JsonCall ℚ) :=
  svcManagerSnapshotAll c.snapshot c.registry c.now

/-- One turn of the loop of `daemon_run`, up to the push. -/
def daemonCycle (printG : ℚ → CStr) (d : Daemon) (c : Cycle) : Daemon :=
  let json := jsonInit d.currentSnapshot snapshotSize
  let json := runCalls printG c.calls json
  { currentSnapshot := json.buf
    history := (ringbufPush d.history json.buf (jsonLength json) c.mallocOk c.now).1 }

def getSnapshotCallback (currentSnapshot : Bytes) : CStr := cstr currentSnapshot

/-- The daemon after some cycles. -/
abbrev Daemon.after (printG : ℚ → CStr) (maxSnapshots : Nat) (cycles : List Cycle) : Daemon :=
  Run.state (daemonCycle printG) (daemonInit maxSnapshots) cycles

/-! ## What is published -/

/-- The snapshot is a JSON document, and it is what the history holds as its newest entry, unless
that found no memory. -/
structure Published (d : Daemon) (c : Cycle) : Prop where
  wellFormed : WellFormed (getSnapshotCallback d.currentSnapshot).bytes
  history : c.mallocOk = true → ∃ entry data, ringbufGetRecent d.history 0 = some entry ∧
    entry.data = some data ∧ cstr data = getSnapshotCallback d.currentSnapshot

/-- No enabled service's name brings in a control character. -/
def Cycle.PlainNames (c : Cycle) : Prop :=
  ∀ svc ∈ c.registry.list, svc.enabled = true → plainKey svc.name = true

/-- The text of the cycle's snapshot and its NUL fit into the buffer. -/
structure Cycle.Fits (printG : ℚ → CStr) (c : Cycle) : Prop where
  length : (unboundedText printG c.calls).length < snapshotSize
  names : c.PlainNames

structure Daemon.Valid (d : Daemon) : Prop where
  snapshot_length : d.currentSnapshot.length = snapshotSize
  history : d.history.Valid

theorem Daemon.valid_init {maxSnapshots : Nat} (h : 1 ≤ maxSnapshots) :
    (daemonInit maxSnapshots).Valid where
  snapshot_length := List.length_replicate
  history := Ringbuf.valid_create h

variable {num : ℚ → NumLit} {d : Daemon} {c : Cycle}

theorem Daemon.Valid.cycle {printG : ℚ → CStr} (h : d.Valid) (c : Cycle) :
    (daemonCycle printG d c).Valid := by
  have hw := wrote_runCalls printG d.currentSnapshot (by rw [h.snapshot_length]; decide) c.calls
  rw [h.snapshot_length] at hw
  constructor
  · show (runCalls printG c.calls (jsonInit d.currentSnapshot snapshotSize)).buf.length = _
    rw [hw.buf_length, runCalls_size]
    rfl
  · exact h.history.push _ _ _ _

/-- The text in the buffer is all that the builder has written. -/
theorem cycle_text (printG : ℚ → CStr) (h : d.Valid) (c : Cycle) :
    let j := runCalls printG c.calls (jsonInit d.currentSnapshot snapshotSize)
    j.text = j.buf.take (jsonLength j) := by
  have hw := wrote_runCalls printG d.currentSnapshot (by rw [h.snapshot_length]; decide) c.calls
  rw [h.snapshot_length] at hw
  exact hw.text_eq (callTokens_nulFree printG false c.calls)

/-- A cycle that finds memory pushes the text in the buffer. -/
theorem pushed_cycle (printG : ℚ → CStr) (h : d.Valid) (hmalloc : c.mallocOk = true) :
    ∃ entry, ringbufGetRecent (daemonCycle printG d c).history 0 = some entry ∧
      entry.data =
        some ((getSnapshotCallback (daemonCycle printG d c).currentSnapshot).bytes ++ [0]) := by
  have htext := cycle_text printG h c
  let j := runCalls printG c.calls (jsonInit d.currentSnapshot snapshotSize)
  have hpush := h.history.recent_push j.buf (jsonLength j) c.now
  rw [← htext] at hpush
  refine ⟨{ timestamp := c.now, data := some (j.text ++ [0]), size := jsonLength j }, ?_, rfl⟩
  simp only [daemonCycle, hmalloc]
  exact hpush

/-- **A cycle publishes a document** exactly when its snapshot fits. -/
theorem published_cycle_iff (h : d.Valid) (hwrite : WriteValues c.snapshot c.registry) :
    Published (daemonCycle (numText num) d c) c ↔ c.Fits (numText num) := by
  obtain ⟨ms, hms, -⟩ := snapshotAll_emits hwrite c.now
  have hwf := wellFormed_iff num ⟨_, hms⟩ d.currentSnapshot
    (by rw [h.snapshot_length]; decide)
  rw [h.snapshot_length, plainKeys_snapshotAll hwrite] at hwf
  constructor
  · intro hpub
    obtain ⟨hlen, hnames⟩ := hwf.1 hpub.wellFormed
    exact ⟨hlen, hnames⟩
  · rintro ⟨hlen, hnames⟩
    refine ⟨hwf.2 ⟨hlen, hnames⟩, fun hmalloc => ?_⟩
    obtain ⟨entry, hentry, hdata⟩ := pushed_cycle (numText num) h hmalloc
    exact ⟨entry, _, hentry, hdata, CStr.cstr_terminated _⟩

/-- **Every cycle of a run publishes a document** exactly when its snapshot fits into the buffer
(and no name spoils it). -/
theorem published_iff (num : ℚ → NumLit) (maxSnapshots : Nat) (hcap : 1 ≤ maxSnapshots)
    (cycles : List Cycle) (hwrite : ∀ c ∈ cycles, WriteValues c.snapshot c.registry) (k : Nat)
    (c : Cycle) (hk : cycles[k]? = some c) :
    Published (Daemon.after (numText num) maxSnapshots (cycles.take (k + 1))) c ↔
      c.Fits (numText num) := by
  have hvalid : (Daemon.after (numText num) maxSnapshots (cycles.take k)).Valid :=
    Run.invariant (Daemon.valid_init hcap) (fun _ c h => h.cycle c) _
  rw [Daemon.after, Run.state_take_succ _ _ hk]
  exact published_cycle_iff hvalid (hwrite c (List.mem_of_getElem? hk))

/-- The vmstat service's cycle. -/
def vmstatCycle : Cycle where
  registry := .of [vmstatService]
  snapshot _ := vmstatState.snapshot .merge
  now := 17
  mallocOk := true

theorem vmstatCycle_writes : WriteValues vmstatCycle.snapshot vmstatCycle.registry :=
  fun _ _ _ => (vmstatState.snapshot_object .merge).value

theorem vmstatCycle_fits : vmstatCycle.Fits (numText fun _ => .ofInt 0) where
  length := by decide +kernel
  names svc hsvc _ := by
    rw [vmstatCycle, Registry.list_of, List.mem_singleton] at hsvc
    rw [hsvc]
    decide

/-- The first cycle of a daemon whose only service is vmstat. -/
theorem published_iff_vmstat :
    Published (Daemon.after (numText fun _ => .ofInt 0) 60 [vmstatCycle]) vmstatCycle :=
  (published_iff (fun _ => .ofInt 0) 60 (by decide) [vmstatCycle]
    (fun c hc => by
      rw [List.mem_singleton.1 hc]
      exact vmstatCycle_writes)
    0 vmstatCycle rfl).2 vmstatCycle_fits

/-! ## A crowded machine -/

section

variable {δ : Type} (printG : δ → CStr)

/-- The bytes that calls write, the commas aside. -/
def leastLength (cs : List (JsonCall δ)) : Nat :=
  (cs.map fun c => (c.tokens printG false).flatten.length).sum

theorem leastLength_cons (c : JsonCall δ) (cs : List (JsonCall δ)) :
    leastLength printG (c :: cs) =
      (c.tokens printG false).flatten.length + leastLength printG cs := rfl

theorem leastLength_append (cs ds : List (JsonCall δ)) :
    leastLength printG (cs ++ ds) = leastLength printG cs + leastLength printG ds := by
  rw [leastLength, List.map_append, List.sum_append]
  rfl

theorem leastLength_flatMap_replicate {α : Type} (n : Nat) (x : α) (f : α → List (JsonCall δ)) :
    leastLength printG ((List.replicate n x).flatMap f) = n * leastLength printG (f x) := by
  induction n with
  | zero => rw [Nat.zero_mul]; rfl
  | succ n ih =>
    rw [List.replicate_succ, List.flatMap_cons, leastLength_append, ih, Nat.succ_mul, Nat.add_comm]

/-- An array of the same element many times. -/
theorem leastLength_arrayCalls {α : Type} (n : Nat) (x : α) (f : α → List (JsonCall δ)) :
    n * leastLength printG (f x) ≤ leastLength printG (arrayCalls (List.replicate n x) f) := by
  rw [arrayCalls, leastLength_cons, leastLength_append, leastLength_flatMap_replicate]
  omega

theorem leastLength_mem {cs : List (JsonCall δ)} {parts : List (List (JsonCall δ))}
    (h : cs ∈ parts) : leastLength printG cs ≤ leastLength printG (objectCalls parts) := by
  obtain ⟨as, bs, rfl⟩ := List.append_of_mem h
  rw [objectCalls, leastLength_cons, leastLength_append, List.flatten_append, List.flatten_cons,
    leastLength_append, leastLength_append]
  omega

theorem sockstatSnapshot_length (priv : Sockstat.SockstatPriv) :
    leastLength printG (arrayCalls priv.sockets Sockstat.socketCalls) ≤
      leastLength printG (Sockstat.sockstatSnapshot priv) := by
  refine le_trans ?_ (leastLength_mem printG (List.mem_cons_of_mem _ (List.mem_cons_of_mem _
    List.mem_cons_self)))
  rw [leastLength_cons]
  exact Nat.le_add_left _ _

theorem fdmonSnapshot_length (priv : Fdmon.FdmonPriv) :
    leastLength printG (arrayCalls priv.topConsumers Fdmon.consumerCalls) ≤
      leastLength printG (Fdmon.fdmonSnapshot priv) := by
  refine le_trans ?_ (leastLength_mem printG (List.mem_cons_of_mem _ List.mem_cons_self))
  rw [leastLength_cons]
  exact Nat.le_add_left _ _

theorem svcManagerSnapshotAll_length (snapshot : Service → List (JsonCall δ)) (r : Registry)
    (now : Int64) :
    leastLength printG (r.list.flatMap (serviceCalls snapshot)) ≤
      leastLength printG (svcManagerSnapshotAll snapshot r now) := by
  refine (leastLength_mem printG (List.mem_singleton_self _)).trans (le_trans ?_
    (leastLength_mem printG (List.mem_cons_of_mem _ List.mem_cons_self)))
  rw [leastLength_cons]
  exact Nat.le_add_left _ _

theorem leastLength_le_text (b : Bool) (cs : List (JsonCall δ)) :
    leastLength printG cs ≤ (callTokens printG b cs).flatten.length := by
  induction cs generalizing b with
  | nil => exact Nat.zero_le _
  | cons c cs ih =>
    have hcomma : (c.tokens printG false).flatten.length ≤
        (c.tokens printG b).flatten.length := by
      cases b with
      | false => exact le_rfl
      | true =>
        cases c <;> simp [JsonCall.tokens, keyTokens, commaTokens]
    have hrest := ih c.owesComma
    rw [leastLength_cons, callTokens_cons, List.flatten_append, List.length_append]
    omega

end

/-- A socket of a process that has named itself with control characters. -/
def longSocket : Sockstat.SocketEntry where
  localAddr := .lit "255.255.255.255:65535"
  remAddr := .lit "255.255.255.255:65535"
  state := 11
  txQueue := 4294967295
  rxQueue := 4294967295
  inode := 4294967295
  pid := 4194304
  cmd := cstr (List.replicate 15 1 ++ [0])

/-- A process with such a command line. -/
def longConsumer : Fdmon.FdmonEntry where
  pid := 4194304
  cmd := List.replicate 127 1 ++ [0]
  fdCount := 1
  initialFdCount := 1
  fdDelta := 0
  fdChange := 0
  types := { files := 1, sockets := 0, pipes := 0, eventfds := 0, other := 0 }

/-- As many sockets as the array holds. -/
def crowdedSockstat : Sockstat.SockstatPriv where
  summary := {
    tcpEstablished := 0, tcpTimeWait := 0, tcpCloseWait := 0, tcpListen := 0
    tcpTotal := 1024, udpTotal := 0, unixTotal := 0 }
  previousSummary := {
    tcpEstablished := 0, tcpTimeWait := 0, tcpCloseWait := 0, tcpListen := 0
    tcpTotal := 1024, udpTotal := 0, unixTotal := 0 }
  sockets := List.replicate Sockstat.maxSockets longSocket
  hasPrevious := true

/-- As many consumers as the array holds. -/
def crowdedFdmon : Fdmon.FdmonPriv where
  current := []
  previous := []
  hasPrevious := true
  initial := []
  topConsumers := List.replicate Fdmon.topCount longConsumer
  leakers := []
  summary := { totalFds := 25, totalDelta := 0, procCount := 25, potentialLeaks := 0 }

def sockstatService : Service where
  object := 0
  name := .lit "sockstat"
  ops := some { init := true, collect := true, snapshot := true, destroy := true }
  enabled := true

def fdmonService : Service where
  object := 1
  name := .lit "fdmon"
  ops := some { init := true, collect := true, snapshot := true, destroy := true }
  enabled := true

def crowdedState (svc : Service) : ServiceState :=
  if svc = sockstatService then .sockstat crowdedSockstat else .fdmon crowdedFdmon

def crowdedCycle : Cycle where
  registry := .of [sockstatService, fdmonService]
  snapshot svc := (crowdedState svc).snapshot .merge
  now := 0
  mallocOk := true

theorem crowdedCycle_fromRepository :
    FromRepository .merge crowdedCycle.snapshot crowdedCycle.registry := by
  intro svc hsvc _
  refine ⟨crowdedState svc, ?_, rfl⟩
  rw [crowdedCycle, Registry.list_of] at hsvc
  simp only [List.mem_cons, List.not_mem_nil, or_false] at hsvc
  rcases hsvc with rfl | rfl
  · rfl
  · rfl

/-- `printf("%.6g")` has nothing to print here. -/
def noDoubles : ℚ → NumLit := fun _ => .ofInt 0

/-- The sockets alone write most of what the buffer holds. -/
theorem crowdedSockstat_length :
    1024 * 238 ≤ leastLength (numText noDoubles) (Sockstat.sockstatSnapshot crowdedSockstat) := by
  have hsocket : leastLength (numText noDoubles) (Sockstat.socketCalls longSocket) = 238 := by
    decide +kernel
  have hsockets := leastLength_arrayCalls (numText noDoubles) Sockstat.maxSockets longSocket
    Sockstat.socketCalls
  rw [hsocket] at hsockets
  exact hsockets.trans (sockstatSnapshot_length _ crowdedSockstat)

/-- The consumers write the rest. -/
theorem crowdedFdmon_length :
    25 * 892 ≤ leastLength (numText noDoubles) (Fdmon.fdmonSnapshot crowdedFdmon) := by
  have hconsumer : leastLength (numText noDoubles) (Fdmon.consumerCalls longConsumer) = 892 := by
    decide +kernel
  have hconsumers := leastLength_arrayCalls (numText noDoubles) Fdmon.topCount longConsumer
    Fdmon.consumerCalls
  rw [hconsumer] at hconsumers
  exact hconsumers.trans (fdmonSnapshot_length _ crowdedFdmon)

theorem crowdedCycle_length :
    snapshotSize ≤ (unboundedText (numText noDoubles) crowdedCycle.calls).length := by
  have hservices : crowdedCycle.registry.list.flatMap (serviceCalls crowdedCycle.snapshot) =
      .key sockstatService.name :: Sockstat.sockstatSnapshot crowdedSockstat ++
        .key fdmonService.name :: Fdmon.fdmonSnapshot crowdedFdmon := by
    rw [crowdedCycle, Registry.list_of, List.flatMap_cons, List.flatMap_singleton]
    rfl
  have hall : leastLength _ crowdedCycle.calls ≤ (unboundedText _ _).length :=
    leastLength_le_text (numText noDoubles) false crowdedCycle.calls
  have hdoc := svcManagerSnapshotAll_length (numText noDoubles) crowdedCycle.snapshot
    crowdedCycle.registry crowdedCycle.now
  rw [hservices, List.cons_append, leastLength_cons, leastLength_append, leastLength_cons,
    ← Cycle.calls] at hdoc
  have hsockstat := crowdedSockstat_length
  have hfdmon := crowdedFdmon_length
  have hsize : snapshotSize ≤ 1024 * 238 + 25 * 892 := by decide
  omega

/-- **A snapshot that is cut off is published.** All services are the repository's, their arrays
within their bounds. -/
theorem crowdedCycle_not_published :
    FromRepository .merge crowdedCycle.snapshot crowdedCycle.registry ∧
      ¬ Published (Daemon.after (numText noDoubles) 60 [crowdedCycle]) crowdedCycle := by
  refine ⟨crowdedCycle_fromRepository, fun hpub => ?_⟩
  have hfits := (published_cycle_iff (Daemon.valid_init (by decide))
    crowdedCycle_fromRepository.writeValues).1 hpub
  exact absurd hfits.length (Nat.not_lt.2 crowdedCycle_length)

end Qmem
