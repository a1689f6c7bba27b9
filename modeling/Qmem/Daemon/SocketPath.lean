import Qmem.Daemon.Config
import Qmem.Lib.Run

/-!
# The path of the socket (`daemon/ipc_server.c`, `cli/client.c`)

The configuration has room for a path of 255 characters, and an address for 107. The server binds
its socket to as much of the path as fits but removes the whole, so a longer path leaves a file
behind that the next start finds in its way.

Main result: `socket_path_iff`.
-/

namespace Qmem

open CLib

/-! ## The server and the client -/

/-- The calls that are given a path. A `bind` needs the path to be free. -/
inductive PathCall where
  | unlink (path : CStr)
  | bind (path : CStr) (free : Bool)

def PathCall.path : PathCall → CStr
  | .unlink path | .bind path _ => path

/-- The variables of `ipc_server.c`, the paths that are taken, and the calls so far. The empty
path stands for an address that is no file: a socket has it until it is closed. -/
structure IpcServer where
  serverFd : Option CStr
  running : Bool
  socketPath : CharArray 255
  taken : List CStr
  calls : List PathCall

/-- Which calls of a start succeed, `bind` if it can. -/
structure StartEnv where
  socket : Bool
  bind : Bool
  listen : Bool
  thread : Bool

namespace IpcServer

def unlink (s : IpcServer) (path : CStr) : IpcServer := {
  s with
  taken := if path = .lit "" then s.taken else s.taken.filter (· ≠ path)
  calls := s.calls ++ [.unlink path] }

/-- `close(g_server_fd)` and `g_server_fd = -1`. -/
def close (s : IpcServer) : IpcServer := {
  s with
  serverFd := none
  taken := if s.serverFd = some (.lit "") then s.taken.filter (· ≠ .lit "") else s.taken }

end IpcServer

/-- `ipc_server_start`. -/
def ipcServerStart (cfg : Config) (env : StartEnv) (s : IpcServer) : Int32 × IpcServer :=
  let s := { s with socketPath := s.socketPath.snprintf cfg.socketPath.text }
  let s := s.unlink s.socketPath.text
  if !env.socket then (-1, { s with serverFd := none })
  else
    let sunPath := (CharArray.zero 107).snprintf (s.socketPath.text.cut 107)
    let free := sunPath.text ∉ s.taken
    let s := { s with calls := s.calls ++ [PathCall.bind sunPath.text free] }
    if !(free && env.bind) then (-1, { s with serverFd := none })
    else
      let s := { s with serverFd := some sunPath.text, taken := sunPath.text :: s.taken }
      if !env.listen then (-1, s.close)
      else if !env.thread then (-1, { s.close with running := false })
      else (0, { s with running := true })

/-- `ipc_server_stop`. -/
def ipcServerStop (s : IpcServer) : IpcServer :=
  if !s.running then s
  else { s with running := false }.close.unlink s.socketPath.text

/-- The path that `client_connect` connects to. -/
def clientConnectPath (socketPath : CStr) : CStr :=
  ((CharArray.zero 107).strncpy socketPath).text

/-! ## Runs -/

/-- The server of a new process. -/
def IpcServer.load (files : List CStr) (calls : List PathCall) : IpcServer where
  serverFd := none
  running := false
  socketPath := .zero 255
  taken := files.filter (· ≠ .lit "")
  calls := calls

/-- A start, and what ends it: `ipc_server_stop`, or the process dies. -/
inductive ServerLife where
  | stopped (env : StartEnv)
  | killed (env : StartEnv)

def IpcServer.life (cfg : Config) (s : IpcServer) : ServerLife → IpcServer
  | .stopped env => ipcServerStop (ipcServerStart cfg env s).2
  | .killed env =>
    let s := (ipcServerStart cfg env s).2
    .load s.taken s.calls

/-- One life after the other, among these files. -/
def IpcServer.after (cfg : Config) (files : List CStr) (lives : List ServerLife) : IpcServer :=
  Run.state (IpcServer.life cfg) (.load files []) lives

/-! ## Paths that fit -/

/-- A call with this path, which is free if it has to be. -/
def PathCall.Good (path : CStr) : PathCall → Prop
  | .unlink path' => path' = path
  | .bind path' free => path' = path ∧ free = true

/-- Between two lives. -/
structure IpcServer.Idle (path : CStr) (s : IpcServer) : Prop where
  stopped : s.running = false
  closed : .lit "" ∉ s.taken
  good : ∀ call ∈ s.calls, call.Good path

/-- While it serves. -/
structure IpcServer.Serving (path : CStr) (s : IpcServer) : Prop where
  running : s.running = true
  bound : s.serverFd = some path
  kept : s.socketPath.text = path
  closed : path ≠ .lit "" → .lit "" ∉ s.taken
  good : ∀ call ∈ s.calls, call.Good path

namespace IpcServer

variable {cfg : Config} {s : IpcServer}

theorem socketPath_text (cfg : Config) (s : IpcServer) :
    (s.socketPath.snprintf cfg.socketPath.text).text = cfg.socketPath.text := by
  rw [CharArray.text_snprintf, CStr.cut_eq_self cfg.socketPath.length_text]

theorem mem_unlink {path p : CStr} (h : p ∈ (s.unlink path).taken) : p ∈ s.taken := by
  rw [unlink] at h
  split at h
  · exact h
  · exact List.mem_of_mem_filter h

/-- A path that is removed is free. -/
theorem free_unlink {path : CStr} (h : .lit "" ∉ s.taken) : path ∉ (s.unlink path).taken := by
  rw [unlink]
  by_cases hempty : path = .lit ""
  · rw [if_pos hempty, hempty]
    exact h
  · rw [if_neg hempty]
    simp

theorem closed_close {path : CStr} (hbound : s.serverFd = some path)
    (hclosed : path ≠ .lit "" → .lit "" ∉ s.taken) : .lit "" ∉ s.close.taken := by
  rw [close, hbound]
  by_cases hempty : path = .lit ""
  · rw [hempty, if_pos rfl]
    simp
  · rw [if_neg (fun heq => hempty (Option.some.inj heq))]
    exact hclosed hempty

@[simp] theorem unlink_socketPath (path : CStr) :
    (s.unlink path).socketPath = s.socketPath := rfl

/-- A start serves, or leaves everything idle. -/
theorem Idle.start (h : s.Idle cfg.socketPath.text) (hlen : cfg.socketPath.text.length ≤ 107)
    (env : StartEnv) : (ipcServerStart cfg env s).2.Idle cfg.socketPath.text ∨
      (ipcServerStart cfg env s).2.Serving cfg.socketPath.text := by
  have hkept := socketPath_text cfg s
  generalize hpath : cfg.socketPath.text = path at *
  have hclosed : .lit "" ∉ (s.unlink path).taken := fun hmem => h.closed (mem_unlink hmem)
  have hunlinked : ∀ call ∈ s.calls ++ [.unlink path], call.Good path :=
    List.forall_mem_append.2 ⟨h.good, List.forall_mem_singleton.2 rfl⟩
  have hfree : path ∉ (s.unlink path).taken := free_unlink h.closed
  have htried : ∀ call ∈ s.calls ++ [.unlink path] ++
      [PathCall.bind path (decide (path ∉ (s.unlink path).taken))], call.Good path :=
    List.forall_mem_append.2 ⟨hunlinked, List.forall_mem_singleton.2 ⟨rfl, decide_eq_true hfree⟩⟩
  have hcut : path.cut 107 = path := CStr.cut_eq_self hlen
  have hsun : ((CharArray.zero 107).snprintf path).text = path := by
    rw [CharArray.text_snprintf, hcut]
  have hbound : path ≠ .lit "" → .lit "" ∉ path :: (s.unlink path).taken := by
    intro hne hmem
    obtain heq | hmem := List.mem_cons.1 hmem
    · exact hne heq.symm
    · exact hclosed hmem
  simp only [ipcServerStart, unlink_socketPath, hpath, hkept, hcut, hsun]
  split_ifs
  · exact .inl ⟨h.stopped, hclosed, hunlinked⟩
  · exact .inl ⟨h.stopped, hclosed, htried⟩
  · exact .inl ⟨h.stopped, closed_close rfl hbound, htried⟩
  · exact .inl ⟨rfl, closed_close rfl hbound, htried⟩
  · exact .inr ⟨rfl, rfl, hkept, hbound, htried⟩

/-- A stop leaves no socket, and removes the path. -/
theorem Serving.stop {path : CStr} (h : s.Serving path) : (ipcServerStop s).Idle path := by
  rw [ipcServerStop, h.running]
  refine ⟨rfl, fun hmem => ?_, List.forall_mem_append.2
    ⟨h.good, List.forall_mem_singleton.2 h.kept⟩⟩
  exact closed_close h.bound h.closed (mem_unlink hmem)

theorem Idle.stop {path : CStr} (h : s.Idle path) : (ipcServerStop s).Idle path := by
  rw [ipcServerStop, h.stopped]
  exact h

theorem idle_load {path : CStr} (files : List CStr) {calls : List PathCall}
    (h : ∀ call ∈ calls, call.Good path) : (load files calls).Idle path :=
  ⟨rfl, fun hmem => absurd (List.of_mem_filter hmem) (by simp), h⟩

theorem Idle.life (h : s.Idle cfg.socketPath.text) (hlen : cfg.socketPath.text.length ≤ 107)
    (life : ServerLife) : (s.life cfg life).Idle cfg.socketPath.text := by
  cases life with
  | stopped env =>
    obtain hidle | hserving := h.start hlen env
    · exact hidle.stop
    · exact hserving.stop
  | killed env =>
    obtain hidle | hserving := h.start hlen env
    · exact idle_load _ hidle.good
    · exact idle_load _ hserving.good

/-- Every call has this path, and finds it free. -/
theorem good_after (hlen : cfg.socketPath.text.length ≤ 107) (files : List CStr)
    (lives : List ServerLife) :
    ∀ call ∈ (after cfg files lives).calls, call.Good cfg.socketPath.text := by
  have hidle : (after cfg files lives).Idle cfg.socketPath.text :=
    Run.invariant (idle_load files (List.forall_mem_nil _))
      (fun _ life h => h.life hlen life) lives
  exact hidle.good

end IpcServer

/-- The client connects to the path the server binds to, as much of it as fits. -/
theorem clientConnectPath_eq (path : CStr) : clientConnectPath path = path.cut 107 :=
  CharArray.text_strncpy _ path

/-! ## Longer paths -/

/-- A start at which nothing goes wrong. -/
def smoothStart : StartEnv := { socket := true, bind := true, listen := true, thread := true }

namespace IpcServer

variable {cfg : Config} {s : IpcServer}

theorem cut_ne (h : 107 < cfg.socketPath.text.length) :
    cfg.socketPath.text.cut 107 ≠ cfg.socketPath.text ∧
      cfg.socketPath.text.cut 107 ≠ .lit "" ∧ cfg.socketPath.text ≠ .lit "" := by
  have hlen : (cfg.socketPath.text.cut 107).length = 107 := by
    rw [CStr.length, CStr.cut_bytes, List.length_take_of_le]
    exact h.le
  refine ⟨fun heq => ?_, fun heq => ?_, fun heq => ?_⟩
  · rw [heq] at hlen
    omega
  · rw [heq] at hlen
    exact absurd hlen (by decide)
  · rw [heq] at h
    exact absurd h (by decide)

/-- Its socket stays where it is bound. -/
theorem life_left (h : 107 < cfg.socketPath.text.length)
    (hfree : cfg.socketPath.text.cut 107 ∉ s.taken) :
    (s.life cfg (.stopped smoothStart)).running = false ∧
      cfg.socketPath.text.cut 107 ∈ (s.life cfg (.stopped smoothStart)).taken := by
  obtain ⟨hne, hempty, hempty'⟩ := cut_ne h
  have hkept : cfg.socketPath.text.cut 255 = cfg.socketPath.text :=
    CStr.cut_eq_self cfg.socketPath.length_text
  have hcut : (cfg.socketPath.text.cut 107).cut 107 = cfg.socketPath.text.cut 107 :=
    CStr.cut_eq_self (CStr.length_cut_le _ 107)
  simp [life, ipcServerStart, ipcServerStop, unlink, close, smoothStart, hkept, hcut, hne, hempty,
    hempty', hfree]

/-- A socket that is in the way stays there. -/
theorem life_blocked (h : 107 < cfg.socketPath.text.length) (hstopped : s.running = false)
    (htaken : cfg.socketPath.text.cut 107 ∈ s.taken) :
    (s.life cfg (.stopped smoothStart)).calls = s.calls ++
      [PathCall.unlink cfg.socketPath.text, .bind (cfg.socketPath.text.cut 107) false] := by
  obtain ⟨hne, -, hempty'⟩ := cut_ne h
  have hkept : cfg.socketPath.text.cut 255 = cfg.socketPath.text :=
    CStr.cut_eq_self cfg.socketPath.length_text
  have hcut : (cfg.socketPath.text.cut 107).cut 107 = cfg.socketPath.text.cut 107 :=
    CStr.cut_eq_self (CStr.length_cut_le _ 107)
  simp [life, ipcServerStart, ipcServerStop, unlink, smoothStart, hkept, hcut, hne, hempty',
    htaken, hstopped]

/-- Stopped once and started again, the server finds its own socket in the way. -/
theorem bind_fails (h : 107 < cfg.socketPath.text.length) :
    .bind (cfg.socketPath.text.cut 107) false ∈
      (after cfg [] [.stopped smoothStart, .stopped smoothStart]).calls := by
  obtain ⟨hstopped, htaken⟩ := life_left (s := load [] []) h List.not_mem_nil
  show _ ∈ (((load [] []).life cfg (.stopped smoothStart)).life cfg (.stopped smoothStart)).calls
  rw [life_blocked h hstopped htaken]
  exact List.mem_append_right _ (List.mem_cons_of_mem _ List.mem_cons_self)

end IpcServer

/-- **When the four paths are one**, so that every start finds it free, whatever became of the
servers before: exactly when it fits into an address. -/
theorem socket_path_iff (cfg : Config) :
    (∀ files lives, let calls := (IpcServer.after cfg files lives).calls
      (∀ call ∈ calls, call.path = clientConnectPath cfg.socketPath.text) ∧
        ∀ path free, .bind path free ∈ calls → free = true) ↔
      cfg.socketPath.text.length ≤ 107 := by
  constructor
  · intro h
    by_contra hlong
    obtain ⟨-, hfree⟩ := h [] [.stopped smoothStart, .stopped smoothStart]
    exact Bool.false_ne_true (hfree _ _ (IpcServer.bind_fails (Nat.lt_of_not_le hlong)))
  · intro hlen files lives
    have hgood := IpcServer.good_after hlen files lives
    have hclient : clientConnectPath cfg.socketPath.text = cfg.socketPath.text := by
      rw [clientConnectPath_eq, CStr.cut_eq_self hlen]
    refine ⟨fun call hcall => ?_, fun path free hcall => (hgood _ hcall).2⟩
    rw [hclient]
    cases call with
    | unlink path => exact hgood _ hcall
    | bind path free => exact (hgood _ hcall).1

/-- 108 characters. -/
def longPath : CStr where
  bytes := (CStr.lit "/tmp/").bytes ++ List.replicate 98 0x78 ++ (CStr.lit ".sock").bytes
  nulFree := by decide +kernel

def longPathConfig : Config := {
  configInitDefaults with socketPath := configInitDefaults.socketPath.strncpy longPath }

theorem socket_left : ¬ ∀ files lives,
    let calls := (IpcServer.after longPathConfig files lives).calls
    (∀ call ∈ calls, call.path = clientConnectPath longPathConfig.socketPath.text) ∧
      ∀ path free, .bind path free ∈ calls → free = true := by
  intro h
  obtain ⟨-, hfree⟩ := h [] [.stopped smoothStart, .stopped smoothStart]
  have hlen : 107 < longPathConfig.socketPath.text.length := by decide +kernel
  exact Bool.false_ne_true (hfree _ _ (IpcServer.bind_fails hlen))

end Qmem
