import Qmem.Builder
import Qmem.Lib.Lines
import Qmem.Lib.Scanf
import Qmem.ProcUtils
import Mathlib.Algebra.Order.Field.Rat

/-!
# Network interfaces (`services/netstat.c`)

The counters of `/proc/net/dev`, now and at the last sample, and what they have moved by since
then. The clock is read only when the file has been.
-/

namespace Qmem

open CLib

namespace Netstat

def maxInterfaces : Nat := 32

/-- `netstat_iface_t`. -/
structure NetstatIface where
  name : CStr
  rxBytes : UInt64
  rxPackets : UInt64
  rxErrors : UInt64
  rxDropped : UInt64
  txBytes : UInt64
  txPackets : UInt64
  txErrors : UInt64
  txDropped : UInt64
  rxBytesDelta : Int64
  rxPacketsDelta : Int64
  txBytesDelta : Int64
  txPacketsDelta : Int64
  rxRate : ℚ
  txRate : ℚ

/-- `netstat_priv_t`; each array is the list of its entries up to its count. -/
structure NetstatPriv where
  current : List NetstatIface
  previous : List NetstatIface
  hasPrevious : Bool
  lastCollect : Int64

def netstatInit : NetstatPriv where
  current := []
  previous := []
  hasPrevious := false
  lastCollect := 0

/-! ## Collecting -/

/-- The format of the numbers of an interface. -/
def netFormat : List Directive := .unsigned :: (List.replicate 15 [.blank, .unsigned]).flatten

/-- The body of the loop of `parse_net_dev`, behind the two header lines; `line` is the rest of the
text, from the start of a line. The colon may be on a later line. -/
def netLine (ifaces : List NetstatIface) (line : Bytes) : List NetstatIface :=
  match strchr line 0x3a with
  | none => ifaces
  | some colon =>
    let nameStart := line.dropWhile (· = 0x20)
    let name := (nameStart.take (nameStart.length - colon.length)).take 31
    match sscanf netFormat colon.tail with
    | [.unsigned rxBytes, .unsigned rxPackets, .unsigned rxErrs, .unsigned rxDrop, .unsigned _,
        .unsigned _, .unsigned _, .unsigned _, .unsigned txBytes, .unsigned txPackets,
        .unsigned txErrs, .unsigned txDrop, .unsigned _, .unsigned _, .unsigned _, .unsigned _] =>
      ifaces ++ [{
        name := cstr (name ++ [0])
        rxBytes := rxBytes
        rxPackets := rxPackets
        rxErrors := rxErrs
        rxDropped := rxDrop
        txBytes := txBytes
        txPackets := txPackets
        txErrors := txErrs
        txDropped := txDrop
        rxBytesDelta := 0
        rxPacketsDelta := 0
        txBytesDelta := 0
        txPacketsDelta := 0
        rxRate := 0
        txRate := 0 }]
    | _ => ifaces

/-- The loop: it ends when the array is full. -/
def netLoop : List Bytes → List NetstatIface → List NetstatIface
  | [], ifaces => ifaces
  | line :: lines, ifaces =>
    if ifaces.length < maxInterfaces then netLoop lines (netLine ifaces line) else ifaces

/-- `parse_net_dev`, with the array `buf`; `none` for -1. -/
def parseNetDev (file : ProcFile) (buf : Bytes) : Option (List NetstatIface) :=
  match procReadFile file buf 8192 with
  | (_, none) => none
  | (buf, some _) => some (netLoop ((lineStarts (cstr buf).bytes).drop 2) [])

def findPrevious (previous : List NetstatIface) (name : CStr) : Option NetstatIface :=
  previous.find? fun prev => prev.name = name

/-- The body of the loop of `netstat_collect`. -/
def withDeltas (previous : List NetstatIface) (elapsed : ℚ) (cur : NetstatIface) : NetstatIface :=
  match findPrevious previous cur.name with
  | none => cur
  | some prev =>
    let rxBytesDelta := (cur.rxBytes - prev.rxBytes).toInt64
    let txBytesDelta := (cur.txBytes - prev.txBytes).toInt64
    { cur with
      rxBytesDelta
      rxPacketsDelta := (cur.rxPackets - prev.rxPackets).toInt64
      txBytesDelta
      txPacketsDelta := (cur.txPackets - prev.txPackets).toInt64
      rxRate := rxBytesDelta.toInt / elapsed
      txRate := txBytesDelta.toInt / elapsed }

/-- `netstat_collect`, when the clock shows `now`; false is for -1. -/
def netstatCollect (priv : NetstatPriv) (file : ProcFile) (buf : Bytes) (now : Int64) :
    NetstatPriv × Bool :=
  let priv := { priv with previous := priv.current }
  let prevTime := priv.lastCollect
  match parseNetDev file buf with
  | none => (priv, false)
  | some current =>
    let elapsed : ℚ := (now - prevTime).toInt
    let elapsed := if elapsed < 1 then 1 else elapsed
    let current :=
      if priv.hasPrevious then current.map (withDeltas priv.previous elapsed) else current
    ({ priv with current, lastCollect := now, hasPrevious := true }, true)

/-! ## Reading the results -/

def ifaceCalls (iface : NetstatIface) : List (JsonCall ℚ) :=
  objectCalls [
    [.kvString (.lit "name") (some iface.name)],
    .key (.lit "rx") :: objectCalls [[
      .kvUint (.lit "bytes") iface.rxBytes,
      .kvUint (.lit "packets") iface.rxPackets,
      .kvUint (.lit "errors") iface.rxErrors,
      .kvUint (.lit "dropped") iface.rxDropped,
      .kvInt (.lit "bytes_delta") iface.rxBytesDelta,
      .kvDouble (.lit "rate") iface.rxRate]],
    .key (.lit "tx") :: objectCalls [[
      .kvUint (.lit "bytes") iface.txBytes,
      .kvUint (.lit "packets") iface.txPackets,
      .kvUint (.lit "errors") iface.txErrors,
      .kvUint (.lit "dropped") iface.txDropped,
      .kvInt (.lit "bytes_delta") iface.txBytesDelta,
      .kvDouble (.lit "rate") iface.txRate]]]

def netstatSnapshot (priv : NetstatPriv) : List (JsonCall ℚ) :=
  objectCalls [.key (.lit "interfaces") :: arrayCalls priv.current ifaceCalls]

/-- `netstat_get_interface`; `none` for NULL. -/
def netstatGetInterface (priv : NetstatPriv) (name : CStr) : Option NetstatIface :=
  priv.current.find? fun iface => iface.name = name

end Netstat

end Qmem
