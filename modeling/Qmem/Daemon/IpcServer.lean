import Qmem.Protocol
import Qmem.Builder

/-!
# The IPC server (`daemon/ipc_server.c`)

A connection carries one request and its answer. The sockets are taken to deliver every byte, in
order: what a client sends is a list, and so is what `handle_client` sends back.
-/

namespace Qmem

open CLib

/-- What is left of `response` after the header. -/
def payloadSize : Nat := qmemMsgMaxSize - MsgHeader.size

/-- A text from a callback, which may be NULL, becomes the payload if it fits. -/
def putText (text : Option CStr) (json : JsonBuilder) : JsonBuilder :=
  match text with
  | none => json
  | some text =>
    if text.bytes.length < payloadSize then
      { json with buf := memcpy json.buf 0 text.bytes, pos := text.bytes.length }
    else json

/-- `count` of a history request. The bytes that are there overwrite those of the default. -/
def historyCount (header : MsgHeader) (input : Bytes) : Int32 :=
  let count := leBytes 4 10
  let count := if 4 ≤ header.length.toNat then memcpy count 0 (input.take 4) else count
  .ofNat (leNat count)

/-- The answer that is one pair. -/
def putPair (key text : CStr) (json : JsonBuilder) : JsonBuilder :=
  jsonObjectEnd (jsonKvString (jsonObjectStart json) key (some text))

/-- The `switch` of `handle_client`; `input` is what follows the header. The callbacks may be
NULL, and so may what they return. -/
def handleRequest (snapshotCb : Option (Option CStr)) (historyCb : Option (Int32 → Option CStr))
    (header : MsgHeader) (input : Bytes) (json : JsonBuilder) : JsonBuilder :=
  if header.type = ReqType.status.code ∨ header.type = ReqType.snapshot.code then
    match snapshotCb with
    | none => json
    | some snapshot => putText snapshot json
  else if header.type = ReqType.history.code then
    match historyCb with
    | none => json
    | some history => putText (history (historyCount header input)) json
  else if header.type = ReqType.services.code then
    putPair (.lit "status") (.lit "ok") json
  else
    putPair (.lit "error") (.lit "unknown request") json

/-- `handle_client`: what it sends to a client that sent `input`. `response` is the buffer on the
stack, as it happens to be. -/
def handleClient (snapshotCb : Option (Option CStr)) (historyCb : Option (Int32 → Option CStr))
    (response input : Bytes) : Bytes :=
  if input.length < MsgHeader.size then []
  else
    let header := MsgHeader.ofBytes input
    if header.magic ≠ qmemMsgMagic then []
    else
      let json := jsonInit (response.drop MsgHeader.size) payloadSize
      let json := handleRequest snapshotCb historyCb header (input.drop MsgHeader.size) json
      let respHeader := MsgHeader.init header.type (.ofNat (jsonLength json))
      { respHeader with seq := header.seq }.bytes ++ json.buf.take (jsonLength json)

/-! ## What it sends -/

variable {snapshotCb : Option (Option CStr)} {historyCb : Option (Int32 → Option CStr)}

/-- A request with the right magic is answered by a header and the payload. -/
theorem handleClient_request {header : MsgHeader} (hmagic : header.magic = qmemMsgMagic)
    (response rest : Bytes) :
    handleClient snapshotCb historyCb response (header.bytes ++ rest) =
      let json := handleRequest snapshotCb historyCb header rest
        (jsonInit (response.drop MsgHeader.size) payloadSize)
      { MsgHeader.init header.type (.ofNat (jsonLength json)) with seq := header.seq }.bytes ++
        json.buf.take (jsonLength json) := by
  have hlen : ¬ (header.bytes ++ rest).length < MsgHeader.size := by
    rw [List.length_append, MsgHeader.bytes_length]
    omega
  have hdrop : (header.bytes ++ rest).drop MsgHeader.size = rest :=
    List.drop_left' header.bytes_length
  rw [handleClient, if_neg hlen, MsgHeader.ofBytes_bytes, if_neg (not_not.2 hmagic), hdrop]

/-- What becomes of a text from a callback. -/
def payloadOf (text : CStr) : CStr :=
  if text.bytes.length < payloadSize then text else .lit ""

theorem payloadOf_length (text : CStr) : (payloadOf text).bytes.length < payloadSize := by
  rw [payloadOf]
  split
  · assumption
  · decide

theorem putText_payload (text : CStr) (buf : Bytes) :
    let json := putText (some text) (jsonInit buf payloadSize)
    json.buf.take (jsonLength json) = (payloadOf text).bytes ∧
      jsonLength json = (payloadOf text).bytes.length := by
  rw [putText, payloadOf]
  split
  · refine ⟨?_, rfl⟩
    show (memcpy _ 0 text.bytes).take text.bytes.length = text.bytes
    rw [memcpy, List.take_zero, List.nil_append, List.take_left]
  · exact ⟨rfl, rfl⟩

/-- A client that asks for the snapshot gets one frame. -/
theorem handleClient_snapshot (text : CStr) (length : UInt32) (response rest : Bytes) :
    handleClient (some (some text)) historyCb response
        ((MsgHeader.init ReqType.snapshot.code length).bytes ++ rest) =
      (MsgHeader.init ReqType.snapshot.code (.ofNat (payloadOf text).bytes.length)).bytes ++
        (payloadOf text).bytes := by
  obtain ⟨hpayload, hlen⟩ := putText_payload text (response.drop MsgHeader.size)
  have hmagic : (MsgHeader.init ReqType.snapshot.code length).magic = qmemMsgMagic := rfl
  rw [handleClient_request hmagic, ← hlen, ← hpayload]
  rfl

end Qmem
