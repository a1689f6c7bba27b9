import Qmem.Lib.CStr

/-!
# The IPC messages (`include/qmem/protocol.h`)

A message is a packed header and its payload. The header goes over the socket as it lies in
memory, its fields little-endian one after the other.
-/

namespace CLib

/-- The `k` bytes of a number as it lies in memory. -/
def leBytes : Nat → Nat → Bytes
  | 0, _ => []
  | k + 1, n => UInt8.ofNat n :: leBytes k (n / 256)

def leNat : Bytes → Nat
  | [] => 0
  | b :: bs => b.toNat + 256 * leNat bs

@[simp] theorem leBytes_length (k n : Nat) : (leBytes k n).length = k := by
  induction k generalizing n with
  | zero => rfl
  | succ k ih => rw [leBytes, List.length_cons, ih]

theorem leNat_leBytes (k n : Nat) : leNat (leBytes k n) = n % 256 ^ k := by
  induction k generalizing n with
  | zero => rw [pow_zero, Nat.mod_one]; rfl
  | succ k ih =>
    have hbyte : (UInt8.ofNat n).toNat = n % 256 := UInt8.toNat_ofNat'
    rw [leBytes, leNat, ih, hbyte, pow_succ', Nat.mod_mul]

/-- A number that fits is read back, whatever follows. -/
theorem leNat_take_leBytes {k n : Nat} (h : n < 256 ^ k) (rest : Bytes) :
    leNat ((leBytes k n ++ rest).take k) = n := by
  rw [List.take_left' (leBytes_length k n), leNat_leBytes, Nat.mod_eq_of_lt h]

end CLib

namespace Qmem

open CLib

def qmemMsgMaxSize : Nat := 256 * 1024

def qmemMsgMagic : UInt32 := 0x514D454D

def qmemProtocolVersion : UInt16 := 1

/-- `qmem_req_type_t`. -/
inductive ReqType where
  | status
  | snapshot
  | history
  | config
  | subscribe
  | services
  | shutdown
deriving DecidableEq

def ReqType.code : ReqType → UInt16
  | .status => 1
  | .snapshot => 2
  | .history => 3
  | .config => 4
  | .subscribe => 5
  | .services => 6
  | .shutdown => 99

/-- `qmem_msg_header_t`. -/
structure MsgHeader where
  magic : UInt32
  version : UInt16
  type : UInt16
  length : UInt32
  seq : UInt32
deriving DecidableEq

namespace MsgHeader

/-- `sizeof(qmem_msg_header_t)`. -/
def size : Nat := 16

/-- `qmem_msg_header_init`. -/
def init (type : UInt16) (length : UInt32) : MsgHeader where
  magic := qmemMsgMagic
  version := qmemProtocolVersion
  type := type
  length := length
  seq := 0

/-- The header in memory. -/
def bytes (h : MsgHeader) : Bytes :=
  leBytes 4 h.magic.toNat ++ (leBytes 2 h.version.toNat ++ (leBytes 2 h.type.toNat ++
    (leBytes 4 h.length.toNat ++ leBytes 4 h.seq.toNat)))

/-- The header that 16 bytes of memory are. -/
def ofBytes (s : Bytes) : MsgHeader where
  magic := .ofNat (leNat (s.take 4))
  version := .ofNat (leNat ((s.drop 4).take 2))
  type := .ofNat (leNat ((s.drop 6).take 2))
  length := .ofNat (leNat ((s.drop 8).take 4))
  seq := .ofNat (leNat ((s.drop 12).take 4))

theorem bytes_length (h : MsgHeader) : h.bytes.length = size := by
  simp [bytes, size]

/-- A header is read back. -/
theorem ofBytes_bytes (h : MsgHeader) (rest : Bytes) : ofBytes (h.bytes ++ rest) = h := by
  have hbytes : h.bytes ++ rest = leBytes 4 h.magic.toNat ++ (leBytes 2 h.version.toNat ++
      (leBytes 2 h.type.toNat ++
        (leBytes 4 h.length.toNat ++ (leBytes 4 h.seq.toNat ++ rest)))) := by
    simp only [bytes, List.append_assoc]
  have h4 : (h.bytes ++ rest).drop 4 = leBytes 2 h.version.toNat ++ (leBytes 2 h.type.toNat ++
      (leBytes 4 h.length.toNat ++ (leBytes 4 h.seq.toNat ++ rest))) := by
    rw [hbytes, List.drop_left' (leBytes_length _ _)]
  have h6 : (h.bytes ++ rest).drop 6 = leBytes 2 h.type.toNat ++
      (leBytes 4 h.length.toNat ++ (leBytes 4 h.seq.toNat ++ rest)) := by
    rw [show (6 : Nat) = 4 + 2 from rfl, ← List.drop_drop, h4,
      List.drop_left' (leBytes_length _ _)]
  have h8 : (h.bytes ++ rest).drop 8 =
      leBytes 4 h.length.toNat ++ (leBytes 4 h.seq.toNat ++ rest) := by
    rw [show (8 : Nat) = 6 + 2 from rfl, ← List.drop_drop, h6,
      List.drop_left' (leBytes_length _ _)]
  have h12 : (h.bytes ++ rest).drop 12 = leBytes 4 h.seq.toNat ++ rest := by
    rw [show (12 : Nat) = 8 + 4 from rfl, ← List.drop_drop, h8,
      List.drop_left' (leBytes_length _ _)]
  rw [ofBytes, h4, h6, h8, h12, hbytes, leNat_take_leBytes h.magic.toNat_lt,
    leNat_take_leBytes h.version.toNat_lt, leNat_take_leBytes h.type.toNat_lt,
    leNat_take_leBytes h.length.toNat_lt, leNat_take_leBytes h.seq.toNat_lt]
  simp

end MsgHeader

end Qmem
