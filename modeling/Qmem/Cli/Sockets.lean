import Qmem.Cli.Document

/-!
# `qmemctl sockets` (`cli/commands.c`)

A socket that nobody owns is written without `pid` and `cmd`. The command looks for them all the
same, from the start of the socket's object to the end of the document, and finds those of
whatever process comes next. And a string is shown as it is written: escaped, up to the first
quote, cut to the buffer.

Main result: `socket_rows_right_iff`.
-/

namespace Qmem

open CLib Sockstat

/-! ## The command -/

def getSockStateName (state : Int32) : CStr :=
  if state = 1 then .lit "ESTAB"
  else if state = 2 then .lit "SYN_SENT"
  else if state = 3 then .lit "SYN_RECV"
  else if state = 4 then .lit "FIN_WAIT1"
  else if state = 5 then .lit "FIN_WAIT2"
  else if state = 6 then .lit "TIME_WAIT"
  else if state = 7 then .lit "CLOSE"
  else if state = 8 then .lit "CLOSE_WAIT"
  else if state = 9 then .lit "LAST_ACK"
  else if state = 10 then .lit "LISTEN"
  else if state = 11 then .lit "CLOSING"
  else .lit "UNKNOWN"

/-- A row of the table. -/
structure SocketRow where
  pid : Int64
  cmd : Bytes
  localAddr : Bytes
  remote : Bytes
  state : CStr
  txQ : Int64
  rxQ : Int64
deriving DecidableEq

def SocketRow.read (pos : Bytes) : SocketRow where
  localAddr := extractString pos (.lit "local") 63 []
  remote := extractString pos (.lit "remote") 63 []
  state := getSockStateName (jsonGetInt pos (.lit "state")).toInt32
  txQ := jsonGetInt pos (.lit "tx_q")
  rxQ := jsonGetInt pos (.lit "rx_q")
  pid := jsonGetInt pos (.lit "pid")
  cmd := extractString pos (.lit "cmd") 31 (CStr.lit "-").bytes

/-- `cmd_sockets`: the rows of its table, if it comes to it. -/
def cmdSockets (response : Bytes) : Option (List SocketRow) :=
  match strstr response (keyPattern (.lit "sockstat")) with
  | none => none
  | some sockstat =>
    (strstr sockstat (keyPattern (.lit "sockets"))).map fun sockets =>
      arrayRows sockets (.lit "local") SocketRow.read

/-! ## What should be shown -/

/-- The row of a socket: its own fields, and the owner if there is one. -/
def SocketRow.of (s : SocketEntry) : SocketRow where
  localAddr := s.localAddr.bytes
  remote := s.remAddr.bytes
  state := getSockStateName s.state.toInt32
  txQ := .ofNat s.txQueue.toNat
  rxQ := .ofNat s.rxQueue.toNat
  pid := if s.pid > 0 then s.pid.toInt64 else 0
  cmd := if s.pid > 0 then s.cmd.bytes else (CStr.lit "-").bytes

/-- The row that is printed for a socket when `rest` follows it. -/
def SocketRow.seen (s : SocketEntry) (rest : List (JsonCall ℚ)) : SocketRow where
  localAddr := (shown s.localAddr).take 63
  remote := (shown s.remAddr).take 63
  state := getSockStateName s.state.toInt32
  txQ := .ofNat s.txQueue.toNat
  rxQ := .ofNat s.rxQueue.toNat
  pid := if s.pid > 0 then s.pid.toInt64 else firstInt (.lit "pid") rest
  cmd := if s.pid > 0 then (shown s.cmd).take 31
    else firstString (.lit "cmd") 31 (CStr.lit "-").bytes rest

/-- When the two are the same: the strings are legible, and for a socket that nobody owns the
next process in the document, if there is one, has pid 0 and a command line of one dash. -/
structure Apart (s : SocketEntry) (rest : List (JsonCall ℚ)) : Prop where
  localAddr : Legible 63 s.localAddr
  remote : Legible 63 s.remAddr
  owned : s.pid > 0 → Legible 31 s.cmd
  unowned : ¬ s.pid > 0 → firstInt (.lit "pid") rest = 0 ∧
    firstString (.lit "cmd") 31 (CStr.lit "-").bytes rest = (CStr.lit "-").bytes

theorem SocketRow.seen_eq_of_iff (s : SocketEntry) (rest : List (JsonCall ℚ)) :
    SocketRow.seen s rest = SocketRow.of s ↔ Apart s rest := by
  have hfields : SocketRow.seen s rest = SocketRow.of s ↔
      Legible 63 s.localAddr ∧ Legible 63 s.remAddr ∧
        (SocketRow.seen s rest).pid = (SocketRow.of s).pid ∧
        (SocketRow.seen s rest).cmd = (SocketRow.of s).cmd := by
    rw [← shown_take_iff, ← shown_take_iff, SocketRow.mk.injEq]
    simp only [SocketRow.seen, SocketRow.of, true_and]
    tauto
  rw [hfields]
  by_cases hpid : s.pid > 0
  · simp only [SocketRow.seen, SocketRow.of, if_pos hpid, true_and, shown_take_iff]
    exact ⟨fun ⟨hlocal, hremote, hcmd⟩ => ⟨hlocal, hremote, fun _ => hcmd, fun h => absurd hpid h⟩,
      fun h => ⟨h.localAddr, h.remote, h.owned hpid⟩⟩
  · simp only [SocketRow.seen, SocketRow.of, if_neg hpid]
    exact ⟨fun ⟨hlocal, hremote, hnext⟩ =>
        ⟨hlocal, hremote, fun h => absurd h hpid, fun _ => hnext⟩,
      fun h => ⟨h.localAddr, h.remote, h.unowned hpid⟩⟩

/-! ## What is shown -/

theorem toInt32_state (state : UInt32) : state.toUInt64.toInt64.toInt32 = state.toInt32 := by
  rw [← Int32.toBitVec_inj, Int64.toBitVec_toInt32,
    BitVec.signExtend_eq_setWidth_of_le _ (by decide)]
  exact BitVec.setWidth_setWidth_of_le state.toBitVec (by decide)

theorem ofInt_queue (queue : UInt32) :
    Int64.ofInt (min (2 ^ 63 - 1) queue.toUInt64.toNat) = .ofNat queue.toNat := by
  have hlt := queue.toNat_lt
  rw [UInt32.toNat_toUInt64, min_eq_right (by omega), Int64.ofInt_eq_ofNat]

theorem socketCalls_readable (s : SocketEntry) :
    (socketCalls s : List (JsonCall ℚ)).all JsonCall.readable = true := by
  rw [socketCalls]
  split <;> rfl

theorem socketCalls_startsWith : StartsWith (.lit "local") (socketCalls (δ := ℚ)) := by
  intro s rest
  rw [socketCalls]
  split <;> rfl

section

variable {printG : ℚ → CStr} (hprint : ∀ d, 0x22 ∉ (printG d).bytes)

include hprint

theorem SocketRow.reads : ReadsWith printG socketCalls SocketRow.read SocketRow.seen := by
  intro s rest hrest
  have hall : (socketCalls s ++ rest).all JsonCall.readable = true := by
    rw [List.all_append, socketCalls_readable, hrest]
    rfl
  have hident := identKeys_of_readable hall
  have hpid : firstInt (.lit "pid") (socketCalls s ++ rest) =
      if s.pid > 0 then s.pid.toInt64 else firstInt (.lit "pid") rest := by
    rw [socketCalls]
    split <;> rfl
  have hcmd : firstString (.lit "cmd") 31 (CStr.lit "-").bytes (socketCalls s ++ rest) =
      if s.pid > 0 then (shown s.cmd).take 31
        else firstString (.lit "cmd") 31 (CStr.lit "-").bytes rest := by
    rw [socketCalls]
    split <;> rfl
  rw [SocketRow.read, SocketRow.seen,
    extractString_value hprint hident rfl (stringKey_of_readable hall rfl) (k := .lit "local")
      (v := s.localAddr) rfl,
    extractString_value hprint hident rfl (stringKey_of_readable hall rfl) (k := .lit "remote")
      (v := s.remAddr) rfl,
    jsonGetInt_int hprint hident rfl (by decide) (k := .lit "state")
      (v := s.state.toUInt64.toInt64) rfl,
    jsonGetInt_uint hprint hident rfl (by decide) (k := .lit "tx_q")
      (v := s.txQueue.toUInt64) rfl,
    jsonGetInt_uint hprint hident rfl (by decide) (k := .lit "rx_q")
      (v := s.rxQueue.toUInt64) rfl,
    jsonGetInt_eq hprint hident (k := .lit "pid") rfl (by decide) (intKey_of_readable hall rfl),
    hpid,
    extractString_eq hprint hident (k := .lit "cmd") rfl (stringKey_of_readable hall rfl), hcmd,
    toInt32_state, ofInt_queue, ofInt_queue]

/-- The table of a snapshot that has a sockstat section. -/
theorem cmdSockets_document {qsort : Qsort} {now : Int64} {ss post : List ServiceState}
    {priv : SockstatPriv}
    (hfind : findSection (.lit "sockstat") ss = some (.sockstat priv, post)) :
    let after := .objectEnd :: afterCalls qsort post
    cmdSockets (document printG qsort now ss) =
      some (rowsWith socketCalls SocketRow.seen (.arrayEnd :: after) priv.sockets ++
        (objectsWith (.lit "local") after).map fun cs =>
          SocketRow.read (callText printG false cs)) := by
  intro after
  have hafter : after.all JsonCall.readable = true := by
    rw [List.all_cons, readable_afterCalls]
    rfl
  have hsockets : firstKey (.lit "sockets") (sectionCalls qsort (.sockstat priv) post) =
      some (.key (.lit "sockets") :: (arrayCalls priv.sockets socketCalls ++ after)) := by
    simp [sectionCalls, ServiceState.snapshot, sockstatSnapshot, objectCalls, after]
    rfl
  rw [cmdSockets, strstr_section_some hprint hfind]
  simp only [strstr_member hprint rfl hsockets, Option.map_some]
  rw [arrayRows_with hprint rfl rfl socketCalls_startsWith (SocketRow.reads hprint)
    socketCalls_readable hafter]

end

/-! ## When the rows are the sockets -/

theorem ServiceState.eq_sockstat {st : ServiceState} (h : st.name = .lit "sockstat") :
    ∃ priv, st = .sockstat priv := by
  cases st with
  | sockstat priv => exact ⟨priv, rfl⟩
  | _ => exact absurd h (by simp only [ServiceState.name]; decide)

/-- The private data of the sockstat section of a snapshot. -/
def sockstatOf (ss : List ServiceState) : Option SockstatPriv :=
  match findSection (.lit "sockstat") ss with
  | some (.sockstat priv, _) => some priv
  | _ => none

/-- **The rows are the sockets, in order, exactly when each socket stands apart**: its strings are
legible, and if nobody owns it, no process that stands anywhere behind it is taken for its owner.
And no service further on may list sockets too. -/
theorem socket_rows_right_iff {printG : ℚ → CStr} (hprint : ∀ d, 0x22 ∉ (printG d).bytes)
    (qsort : Qsort) (now : Int64) (ss : List ServiceState) :
    cmdSockets (document printG qsort now ss) =
        ((sockstatOf ss).map fun priv => priv.sockets.map SocketRow.of) ↔
      ∀ priv post, findSection (.lit "sockstat") ss = some (.sockstat priv, post) →
        (∀ front s back, priv.sockets = front ++ s :: back →
          Apart s (back.flatMap socketCalls ++
            .arrayEnd :: .objectEnd :: afterCalls qsort post)) ∧
        ∀ st ∈ post, ¬ st.Lists qsort (.lit "local") := by
  cases hfind : findSection (.lit "sockstat") ss with
  | none =>
    have hnone := strstr_section_none hprint qsort now rfl rfl hfind
    simp [sockstatOf, hfind, cmdSockets, hnone]
  | some found =>
    obtain ⟨st, post⟩ := found
    obtain ⟨priv, rfl⟩ := ServiceState.eq_sockstat (findSection_name hfind)
    have hmore : objectsWith (.lit "local") (.objectEnd :: afterCalls qsort post) = [] ↔
        ∀ st ∈ post, ¬ st.Lists qsort (.lit "local") := objectsWith_afterCalls _ post
    have hpriv : sockstatOf ss = some priv := by rw [sockstatOf, hfind]
    rw [← hfind, forall_found_iff (fun _ _ h => ServiceState.sockstat.inj h) hfind, hpriv,
      cmdSockets_document hprint hfind, Option.map_some, Option.some_inj,
      rowsWith_append_eq_map_iff, List.map_eq_nil_iff, hmore]
    simp only [SocketRow.seen_eq_of_iff]

/-- A socket that waits for its last packets, and has no owner any more. -/
def waitingSocket : SocketEntry where
  localAddr := .lit "10.0.0.1:22"
  remAddr := .lit "10.0.0.2:4040"
  state := 6
  txQueue := 0
  rxQueue := 0
  inode := 0
  pid := 0
  cmd := .lit ""

/-- A socket that a process listens on. -/
def listeningSocket : SocketEntry where
  localAddr := .lit "0.0.0.0:22"
  remAddr := .lit "0.0.0.0:0"
  state := 10
  txQueue := 0
  rxQueue := 0
  inode := 99
  pid := 7
  cmd := .lit "sshd"

def noSockets : SockstatSummary where
  tcpEstablished := 0
  tcpTimeWait := 0
  tcpCloseWait := 0
  tcpListen := 0
  tcpTotal := 0
  udpTotal := 0
  unixTotal := 0

def sockstatOfSockets (sockets : List SocketEntry) : SockstatPriv where
  summary := noSockets
  previousSummary := noSockets
  sockets
  hasPrevious := false

theorem legible_of_all {n : Nat} {v : CStr} (hlen : v.bytes.length ≤ n)
    (h : v.bytes.all verbatimByte = true) : Legible n v :=
  ⟨hlen, v.bytes, 0, List.all_eq_true.1 h, (List.append_nil _).symm, .inl rfl⟩

theorem socket_rows_right_iff_last :
    cmdSockets (document (fun _ => .lit "0") .merge 17
      [vmstatState, .sockstat (sockstatOfSockets [waitingSocket])]) =
        some [SocketRow.of waitingSocket] := by
  refine (socket_rows_right_iff (fun _ => by decide) .merge 17 _).2 fun priv post h => ?_
  obtain ⟨rfl, rfl⟩ : sockstatOfSockets [waitingSocket] = priv ∧ [] = post := by
    cases Option.some.inj h
    exact ⟨rfl, rfl⟩
  refine ⟨fun front s back hsplit => ?_, fun _ => List.not_mem_nil.elim⟩
  obtain ⟨rfl, rfl, rfl⟩ : front = [] ∧ s = waitingSocket ∧ back = [] := by
    cases front with
    | nil =>
      cases hsplit
      exact ⟨rfl, rfl, rfl⟩
    | cons _ front => cases front <;> cases hsplit
  exact ⟨legible_of_all (by decide) (by decide), legible_of_all (by decide) (by decide),
    fun hpid => absurd hpid (by decide), fun _ => ⟨rfl, rfl⟩⟩

/-- The socket that nobody owns is shown with the owner of the next one. -/
theorem socket_rows_wrong :
    let ss : List ServiceState :=
      [.sockstat (sockstatOfSockets [waitingSocket, listeningSocket])]
    cmdSockets (document (fun _ => .lit "0") .merge 17 ss) =
        some [{ SocketRow.of waitingSocket with pid := 7, cmd := (CStr.lit "sshd").bytes },
          SocketRow.of listeningSocket] ∧
      cmdSockets (document (fun _ => .lit "0") .merge 17 ss) ≠
        (sockstatOf ss).map fun priv => priv.sockets.map SocketRow.of := by
  intro ss
  have hrows : cmdSockets (document (fun _ => .lit "0") .merge 17 ss) =
      some [{ SocketRow.of waitingSocket with pid := 7, cmd := (CStr.lit "sshd").bytes },
        SocketRow.of listeningSocket] := by
    have hfind : findSection (.lit "sockstat") ss =
        some (.sockstat (sockstatOfSockets [waitingSocket, listeningSocket]), []) := rfl
    rw [cmdSockets_document (fun _ => by decide) hfind]
    rfl
  refine ⟨hrows, ?_⟩
  rw [hrows]
  have hright : ((sockstatOf ss).map fun priv => priv.sockets.map SocketRow.of) =
      some [SocketRow.of waitingSocket, SocketRow.of listeningSocket] := rfl
  rw [hright]
  decide

end Qmem
