import Qmem.Daemon.IpcServer
import Qmem.Daemon.Cycle

/-!
# The IPC client (`cli/client.c`)

`client_get_snapshot` asks the daemon for the snapshot and returns the text. The snapshot, the
answer and the buffer of the client are all 256 KiB, but the answer has its header in them too:
the last sixteen lengths a snapshot can have do not fit, and the client gets an empty text.

Main result: `clientGetSnapshot_iff`.
-/

namespace Qmem

open CLib

/-- What `client_request` sends. -/
def requestBytes (type : ReqType) (data : Option Bytes) (dataLen : Nat) : Bytes :=
  (MsgHeader.init type.code (.ofNat dataLen)).bytes ++
    match data with
    | some data => data.take dataLen
    | none => []

/-- `client_request`, for a server that answers what it is sent: the returned length, or -1, and
`response` afterwards. -/
def clientRequest (server : Bytes → Bytes) (type : ReqType) (data : Option Bytes) (dataLen : Nat)
    (response : Bytes) : Int32 × Bytes :=
  let inbound := server (requestBytes type data dataLen)
  if inbound.length < MsgHeader.size then (-1, response)
  else
    let respHeader := MsgHeader.ofBytes inbound
    if respHeader.magic ≠ qmemMsgMagic then (-1, response)
    else
      let toRead := respHeader.length.toNat
      let toRead := if toRead ≥ response.length then response.length - 1 else toRead
      let response :=
        if toRead > 0 then
          memcpy response 0 ((inbound.drop MsgHeader.size).take toRead ++ [0])
        else memcpy response 0 [0]
      (respHeader.length.toInt32, response)

/-- `do_request`: the text, or NULL. There may be no server to connect to; `response` is what the
last request left in the static buffer. -/
def doRequest (server : Option (Bytes → Bytes)) (type : ReqType) (data : Option Bytes)
    (dataLen : Nat) (response : Bytes) : Option CStr :=
  match server with
  | none => none
  | some server =>
    let (ret, response) := clientRequest server type data dataLen response
    if ret < 0 then none else some (cstr response)

def clientGetStatus (server : Option (Bytes → Bytes)) (response : Bytes) : Option CStr :=
  doRequest server .status none 0 response

def clientGetSnapshot (server : Option (Bytes → Bytes)) (response : Bytes) : Option CStr :=
  doRequest server .snapshot none 0 response

def clientGetHistory (server : Option (Bytes → Bytes)) (count : Int32) (response : Bytes) :
    Option CStr :=
  doRequest server .history (some (leBytes 4 count.toUInt32.toNat)) 4 response

/-- `sizeof(response)` of `do_request`. -/
def clientResponseSize : Nat := 256 * 1024

/-! ## The answer, as the client reads it -/

/-- A frame with a NUL-free payload that fits into the buffer is read back. -/
theorem doRequest_frame {server : Bytes → Bytes} {type : ReqType} {data : Option Bytes}
    {dataLen : Nat} {header : MsgHeader} {text : CStr} {response : Bytes}
    (hserver : server (requestBytes type data dataLen) = header.bytes ++ text.bytes)
    (hmagic : header.magic = qmemMsgMagic) (hlen : header.length.toNat = text.bytes.length)
    (hfits : text.bytes.length < response.length) (hsize : response.length ≤ 2 ^ 31) :
    doRequest (some server) type data dataLen response = some text := by
  have hsome : ¬ (header.bytes ++ text.bytes).length < MsgHeader.size := by
    rw [List.length_append, header.bytes_length]
    omega
  have hread : (if header.length.toNat ≥ response.length then response.length - 1
      else header.length.toNat) = text.bytes.length := by
    rw [if_neg (by omega), hlen]
  have hpayload : ((header.bytes ++ text.bytes).drop MsgHeader.size).take text.bytes.length =
      text.bytes := by
    rw [List.drop_left' header.bytes_length, List.take_length]
  have hnonneg : ¬ header.length.toInt32 < 0 := by
    have hint : header.length.toInt32.toInt = header.length.toNat :=
      BitVec.toInt_eq_toNat_of_lt (by
        show 2 * header.length.toNat < 2 ^ 32
        omega)
    rw [Int32.lt_iff_toInt_lt, hint, Int32.toInt_zero]
    omega
  have hbuf : (if text.bytes.length > 0 then memcpy response 0 (text.bytes ++ [0])
      else memcpy response 0 [0]) = memcpy response 0 (text.bytes ++ [0]) := by
    split
    · rfl
    · have : text.bytes = [] := List.eq_nil_of_length_eq_zero (by omega)
      rw [this, List.nil_append]
  simp only [doRequest, clientRequest, hserver, if_neg hsome, MsgHeader.ofBytes_bytes, hmagic,
    ne_eq, not_true_eq_false, if_false, hread, hpayload, hbuf, if_neg hnonneg]
  rw [CStr.cstr_memcpy]

variable {historyCb : Option (Int32 → Option CStr)} {stack response : Bytes}

/-- What a request for the snapshot gets. -/
theorem clientGetSnapshot_eq (text : CStr) (hresponse : response.length = clientResponseSize) :
    clientGetSnapshot (some (handleClient (some (some text)) historyCb stack)) response =
      some (payloadOf text) := by
  have hsmall : (payloadOf text).bytes.length < qmemMsgMaxSize - 16 := payloadOf_length text
  have hsizes : qmemMsgMaxSize = 262144 ∧ clientResponseSize = 262144 := ⟨rfl, rfl⟩
  refine doRequest_frame (handleClient_snapshot text 0 stack []) rfl ?_ (by omega) (by omega)
  show (UInt32.ofNat (payloadOf text).bytes.length).toNat = _
  exact UInt32.toNat_ofNat_of_lt' (by
    show _ < 2 ^ 32
    omega)

/-- The client gets the snapshot if and only if the snapshot leaves room for the header. -/
theorem clientGetSnapshot_iff (text : CStr) (hresponse : response.length = clientResponseSize) :
    clientGetSnapshot (some (handleClient (some (some text)) historyCb stack)) response =
        some text ↔
      text.bytes.length < qmemMsgMaxSize - MsgHeader.size := by
  rw [clientGetSnapshot_eq text hresponse, Option.some_inj, payloadOf]
  show (if text.bytes.length < qmemMsgMaxSize - MsgHeader.size then _ else _) = _ ↔ _
  split
  · case isTrue h => exact iff_of_true rfl h
  · case isFalse h =>
    refine iff_of_false (fun hempty => h ?_) h
    rw [← hempty]
    decide

theorem clientGetSnapshot_iff_small :
    clientGetSnapshot
        (some (handleClient (some (some (.lit "\x7b\x7d"))) none (List.replicate qmemMsgMaxSize 0)))
        (List.replicate clientResponseSize 0) = some (.lit "\x7b\x7d") :=
  (clientGetSnapshot_iff _ List.length_replicate).2 (by decide)

/-- A snapshot that fills its buffer. -/
def fullSnapshot : CStr where
  bytes := List.replicate (snapshotSize - 1) 0x20
  nulFree h := absurd (List.eq_of_mem_replicate h) (by decide)

theorem fullSnapshot_lost :
    fullSnapshot.bytes.length = 262143 ∧
      clientGetSnapshot
        (some (handleClient (some (some fullSnapshot)) none (List.replicate qmemMsgMaxSize 0)))
        (List.replicate clientResponseSize 0) = some (.lit "") ∧
      fullSnapshot ≠ .lit "" := by
  have hlen : fullSnapshot.bytes.length = 262143 := List.length_replicate
  have hsize : payloadSize = 262128 := rfl
  refine ⟨hlen, ?_, fun h => ?_⟩
  · rw [clientGetSnapshot_eq _ List.length_replicate, payloadOf, if_neg (by omega)]
  · rw [h] at hlen
    exact absurd hlen (by decide)

end Qmem
