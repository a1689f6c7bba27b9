import Qmem.Builder
import Qmem.Lib.Scanf
import Qmem.Lib.Stdio
import Qmem.ProcUtils

/-!
# Sockets (`services/sockstat.c`)

The TCP table, line by line, with the processes that have its sockets open; of the UDP and Unix
tables only the lines are counted.
-/

namespace Qmem

open CLib

namespace Sockstat

def maxSockets : Nat := 1024

/-- `sockstat_summary_t`. -/
structure SockstatSummary where
  tcpEstablished : Int32
  tcpTimeWait : Int32
  tcpCloseWait : Int32
  tcpListen : Int32
  tcpTotal : Int32
  udpTotal : Int32
  unixTotal : Int32

/-- `socket_entry_t`. -/
structure SocketEntry where
  localAddr : CStr
  remAddr : CStr
  state : UInt32
  txQueue : UInt32
  rxQueue : UInt32
  inode : UInt32
  pid : Int32
  cmd : CStr

/-- `sockstat_priv_t`; `sockets` is the array up to its count. -/
structure SockstatPriv where
  summary : SockstatSummary
  previousSummary : SockstatSummary
  sockets : List SocketEntry
  hasPrevious : Bool

def emptySummary : SockstatSummary where
  tcpEstablished := 0
  tcpTimeWait := 0
  tcpCloseWait := 0
  tcpListen := 0
  tcpTotal := 0
  udpTotal := 0
  unixTotal := 0

def sockstatInit : SockstatPriv where
  summary := emptySummary
  previousSummary := emptySummary
  sockets := []
  hasPrevious := false

/-! ## Collecting -/

/-- What a process has open: where its descriptors link to (nothing if `readlink` fails), if the
directory can be opened, and the file with its name. -/
structure SockProc where
  pid : Int32
  fds : Option (List Bytes)
  comm : ProcFile

/-- The files that are read, and the processes, if /proc can be opened; `tcp` is the contents of
that table. `stack` is what the local arrays hold before. -/
structure SockFiles where
  tcp : Option Bytes
  udp : ProcFile
  udp6 : ProcFile
  unix : ProcFile
  procs : Option (List SockProc)
  stack : Bytes

/-- The body of the loop of `count_lines`, on `skipped` and `count`. -/
def countLine (skipHeader : Nat) (s : Nat × Nat) (_line : Bytes) : Nat × Nat :=
  if s.1 ≥ skipHeader then (s.1, s.2 + 1) else (s.1 + 1, s.2)

def countLines (file : ProcFile) (buf : Bytes) (skipHeader : Nat) : Int32 :=
  match procReadFile file buf 65536 with
  | (_, none) => 0
  | (buf, some _) => .ofNat ((lineStarts (cstr buf).bytes).foldl (countLine skipHeader) (0, 0)).2

/-- `inet_ntoa` of an address whose first byte is the lowest. -/
def inetNtoa (addr : UInt32) : Bytes :=
  decNat (addr.toNat % 256) ++ 0x2e :: (decNat (addr.toNat / 256 % 256) ++ 0x2e ::
    (decNat (addr.toNat / 65536 % 256) ++ 0x2e :: decNat (addr.toNat / 16777216)))

/-- `parse_address`, into an array of 64 bytes. -/
def parseAddress (hexAddr : Bytes) : CStr :=
  match sscanf [.hex, .char 0x3a, .hex] hexAddr with
  | [.unsigned addr, .unsigned port] =>
    (cstr (inetNtoa addr.toUInt32 ++ 0x3a :: decNat port.toUInt32.toNat ++ [0])).cut 63
  | _ => (cstr (hexAddr ++ [0])).cut 63

/-- The format of a line of the TCP table. -/
def tcpFormat : List Directive := [
  .unsigned, .char 0x3a, .blank, .string 63, .blank, .string 63, .blank, .hex, .blank,
  .hex, .char 0x3a, .hex, .blank, .hex, .char 0x3a, .hex, .blank, .hex, .blank,
  .unsigned, .blank, .unsigned, .blank, .unsigned]

/-- The `switch` over the state. -/
def SockstatSummary.countTcp (summary : SockstatSummary) (state : UInt32) : SockstatSummary :=
  let summary := { summary with tcpTotal := summary.tcpTotal + 1 }
  if state = 1 then { summary with tcpEstablished := summary.tcpEstablished + 1 }
  else if state = 6 then { summary with tcpTimeWait := summary.tcpTimeWait + 1 }
  else if state = 8 then { summary with tcpCloseWait := summary.tcpCloseWait + 1 }
  else if state = 10 then { summary with tcpListen := summary.tcpListen + 1 }
  else summary

/-- The body of the loop of `parse_tcp_detailed`. -/
def tcpLine (priv : SockstatPriv) (line : Bytes) : SockstatPriv :=
  match sscanf tcpFormat (cstr (line ++ [0])).bytes with
  | [.unsigned _, .text localAddr, .text remAddr, .unsigned state, .unsigned txQ, .unsigned rxQ,
      _, _, _, _, _, .unsigned inode] =>
    { priv with
      summary := priv.summary.countTcp state.toUInt32
      sockets := priv.sockets ++ [{
        localAddr := parseAddress localAddr
        remAddr := parseAddress remAddr
        state := state.toUInt32
        txQueue := txQ.toUInt32
        rxQueue := rxQ.toUInt32
        inode := inode.toUInt32
        pid := 0
        cmd := .lit "" }] }
  | _ => priv

/-- The loop: it ends when the array is full. -/
def tcpLoop : List Bytes → SockstatPriv → SockstatPriv
  | [], priv => priv
  | line :: lines, priv =>
    if priv.sockets.length < maxSockets then tcpLoop lines (tcpLine priv line) else priv

/-- `parse_tcp_detailed`; nobody looks at its result. -/
def parseTcpDetailed (tcp : Option Bytes) (priv : SockstatPriv) : SockstatPriv :=
  match fgetsAll 512 (tcp.getD []) with
  | [] => priv
  | _ :: lines => tcpLoop lines priv

/-- A socket that has been found among the descriptors of a process. -/
def SocketEntry.foundIn (p : SockProc) (stack : Bytes) (s : SocketEntry) : SocketEntry :=
  match procReadFile p.comm stack 16 with
  | (cmd, some (_ + 1)) => { s with pid := p.pid, cmd := ((cstr cmd).upTo 0x0a).cut 15 }
  | _ => { s with pid := p.pid }

/-- One descriptor of a process. -/
def mapLink (p : SockProc) (stack : Bytes) (sockets : List SocketEntry) (target : Bytes) :
    List SocketEntry :=
  if (CStr.lit "socket:[").bytes <+: target then
    let inode := (strtoul (target.drop 8)).toUInt32
    sockets.map fun s => if s.inode = inode then s.foundIn p stack else s
  else sockets

def mapInodesToPids (files : SockFiles) (priv : SockstatPriv) : SockstatPriv :=
  { priv with
    sockets := (files.procs.getD []).foldl
      (fun sockets p => (p.fds.getD []).foldl (mapLink p files.stack) sockets) priv.sockets }

def sockstatCollect (files : SockFiles) (priv : SockstatPriv) : SockstatPriv :=
  let priv := {
    summary := emptySummary, previousSummary := priv.summary, sockets := [], hasPrevious := true }
  let priv := mapInodesToPids files (parseTcpDetailed files.tcp priv)
  { priv with
    summary := { priv.summary with
      udpTotal := countLines files.udp files.stack 1 + countLines files.udp6 files.stack 1
      unixTotal := countLines files.unix files.stack 1 } }

/-! ## Reading the results -/

section

variable {δ : Type}

def socketCalls (s : SocketEntry) : List (JsonCall δ) :=
  objectCalls [
    [.kvString (.lit "local") (some s.localAddr),
      .kvString (.lit "remote") (some s.remAddr),
      .kvInt (.lit "state") s.state.toUInt64.toInt64,
      .kvUint (.lit "tx_q") s.txQueue.toUInt64,
      .kvUint (.lit "rx_q") s.rxQueue.toUInt64,
      .kvUint (.lit "inode") s.inode.toUInt64],
    if s.pid > 0 then
      [.kvInt (.lit "pid") s.pid.toInt64, .kvString (.lit "cmd") (some s.cmd)]
    else []]

def sockstatSnapshot (priv : SockstatPriv) : List (JsonCall δ) :=
  let cur := priv.summary
  let prev := priv.previousSummary
  objectCalls [
    .key (.lit "tcp") :: objectCalls [[
      .kvInt (.lit "total") cur.tcpTotal.toInt64,
      .kvInt (.lit "total_delta") (cur.tcpTotal - prev.tcpTotal).toInt64,
      .kvInt (.lit "established") cur.tcpEstablished.toInt64,
      .kvInt (.lit "established_delta") (cur.tcpEstablished - prev.tcpEstablished).toInt64,
      .kvInt (.lit "time_wait") cur.tcpTimeWait.toInt64,
      .kvInt (.lit "time_wait_delta") (cur.tcpTimeWait - prev.tcpTimeWait).toInt64,
      .kvInt (.lit "close_wait") cur.tcpCloseWait.toInt64,
      .kvInt (.lit "listen") cur.tcpListen.toInt64]],
    [.kvInt (.lit "udp_total") cur.udpTotal.toInt64,
      .kvInt (.lit "udp_total_delta") (cur.udpTotal - prev.udpTotal).toInt64,
      .kvInt (.lit "unix_total") cur.unixTotal.toInt64,
      .kvInt (.lit "unix_total_delta") (cur.unixTotal - prev.unixTotal).toInt64],
    .key (.lit "sockets") :: arrayCalls priv.sockets socketCalls]

end

end Sockstat

end Qmem
