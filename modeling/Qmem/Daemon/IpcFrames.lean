import Qmem.BuilderTokens
import Qmem.Daemon.IpcServer

/-!
# The frames of the IPC server

Whatever a client sends, in whatever pieces, it gets nothing or one frame, in which the length in
the header is that of the payload.

Main result: `handleConnection_frame`.
-/

namespace Qmem

open CLib

/-! ## Receiving -/

/-- `recv` with `MSG_WAITALL` from a stream that comes in these pieces: it waits for as much as
was asked for, or for the end. What is left of the stream comes second. -/
def recvAll : Nat → List Bytes → Bytes × List Bytes
  | _, [] => ([], [])
  | n, piece :: pieces =>
    if n ≤ piece.length then (piece.take n, piece.drop n :: pieces)
    else
      let (bytes, rest) := recvAll (n - piece.length) pieces
      (piece ++ bytes, rest)

/-- The pieces do not matter. -/
theorem recvAll_flatten (n : Nat) (pieces : List Bytes) :
    (recvAll n pieces).1 = pieces.flatten.take n ∧
      (recvAll n pieces).2.flatten = pieces.flatten.drop n := by
  induction pieces generalizing n with
  | nil => exact ⟨List.take_nil.symm, List.drop_nil.symm⟩
  | cons piece pieces ih =>
    rw [recvAll, List.flatten_cons]
    split
    · case isTrue hle =>
      exact ⟨(List.take_append_of_le_length hle).symm, (List.drop_append_of_le_length hle).symm⟩
    · case isFalse hless =>
      obtain ⟨hbytes, hrest⟩ := ih (n - piece.length)
      have htake : piece.take n = piece := List.take_of_length_le (by omega)
      have hdrop : piece.drop n = [] := List.drop_of_length_le (by omega)
      refine ⟨?_, ?_⟩
      · show piece ++ (recvAll (n - piece.length) pieces).1 = _
        rw [hbytes, List.take_append, htake]
      · show (recvAll (n - piece.length) pieces).2.flatten = _
        rw [hrest, List.drop_append, hdrop, List.nil_append]

/-- `handle_client` on a connection: the header is received, and up to four bytes for the count
of a history request. -/
def handleConnection (snapshotCb : Option (Option CStr))
    (historyCb : Option (Int32 → Option CStr)) (response : Bytes) (pieces : List Bytes) : Bytes :=
  let (header, rest) := recvAll MsgHeader.size pieces
  if header.length ≠ MsgHeader.size then []
  else handleClient snapshotCb historyCb response (header ++ (recvAll 4 rest).1)

/-! ## Sending -/

/-- What a builder has in its buffer can be sent with its length. -/
structure JsonBuilder.Sendable (json : JsonBuilder) : Prop where
  length : (json.buf.take (jsonLength json)).length = jsonLength json
  lt : jsonLength json < payloadSize

theorem sendable_init (buf : Bytes) : (jsonInit buf payloadSize).Sendable where
  length := rfl
  lt := by
    show 0 < payloadSize
    decide

theorem JsonBuilder.Sendable.putText {json : JsonBuilder} (h : json.Sendable)
    (text : Option CStr) : (putText text json).Sendable := by
  cases text with
  | none => exact h
  | some text =>
    rw [Qmem.putText]
    split
    · case isTrue hfits =>
      refine ⟨?_, hfits⟩
      show ((memcpy json.buf 0 text.bytes).take text.bytes.length).length = text.bytes.length
      rw [memcpy, List.take_zero, List.nil_append, List.take_left]
    · exact h

theorem sendable_putPair {buf : Bytes} (hbuf : buf.length = payloadSize) (key text : CStr) :
    (putPair key text (jsonInit buf payloadSize)).Sendable := by
  have hwrote := wrote_runCalls (fun d : Empty => d.elim) buf (by rw [hbuf]; decide)
    [.objectStart, .kvString key (some text), .objectEnd]
  have hsize := runCalls_size (fun d : Empty => d.elim)
    [.objectStart, .kvString key (some text), .objectEnd] (jsonInit buf buf.length)
  have hlt := hwrote.pos_lt
  rw [hsize] at hlt
  rw [hbuf] at hwrote hlt
  exact ⟨hwrote.pos_length, hlt⟩

variable {snapshotCb : Option (Option CStr)} {historyCb : Option (Int32 → Option CStr)}

/-- The three ways in which the payload comes about. -/
theorem sendable_handleRequest {buf : Bytes} (hbuf : buf.length = payloadSize)
    (header : MsgHeader) (input : Bytes) :
    (handleRequest snapshotCb historyCb header input (jsonInit buf payloadSize)).Sendable := by
  have hinit := sendable_init buf
  unfold handleRequest
  split
  · cases snapshotCb with
    | none => exact hinit
    | some snapshot => exact hinit.putText snapshot
  · split
    · cases historyCb with
      | none => exact hinit
      | some history => exact hinit.putText _
    · split
      · exact sendable_putPair hbuf _ _
      · exact sendable_putPair hbuf _ _

/-- One frame that answers this request. -/
def IsAnswer (request : MsgHeader) (sent : Bytes) : Prop :=
  ∃ (header : MsgHeader) (payload : Bytes), sent = header.bytes ++ payload ∧
    header.magic = qmemMsgMagic ∧ header.version = qmemProtocolVersion ∧
    header.type = request.type ∧ header.seq = request.seq ∧
    header.length.toNat = payload.length ∧ payload.length < 262128

/-- The header is in the first bytes. -/
theorem ofBytes_append {header : Bytes} (h : header.length = MsgHeader.size) (rest : Bytes) :
    MsgHeader.ofBytes (header ++ rest) = MsgHeader.ofBytes header := by
  have hlen : header.length = 16 := h
  have hfield (off n : Nat) (hle : off + n ≤ 16) :
      ((header ++ rest).drop off).take n = (header.drop off).take n := by
    rw [List.drop_append_of_le_length (by omega),
      List.take_append_of_le_length (by rw [List.length_drop]; omega)]
  have hmagic := hfield 0 4 (by omega)
  rw [List.drop_zero, List.drop_zero] at hmagic
  simp only [MsgHeader.ofBytes, hmagic, hfield 4 2 (by omega), hfield 6 2 (by omega),
    hfield 8 4 (by omega), hfield 12 4 (by omega)]

/-- A header with the right magic is answered, whatever follows it. -/
theorem handleClient_answer {response : Bytes} (hresponse : response.length = qmemMsgMaxSize)
    {header : Bytes} (hlen : header.length = MsgHeader.size)
    (hmagic : (MsgHeader.ofBytes header).magic = qmemMsgMagic) (rest : Bytes) :
    IsAnswer (MsgHeader.ofBytes header)
      (handleClient snapshotCb historyCb response (header ++ rest)) := by
  have hbuf : (response.drop MsgHeader.size).length = payloadSize := by
    rw [List.length_drop, hresponse]
    rfl
  have hlong : ¬ (header ++ rest).length < MsgHeader.size := by
    rw [List.length_append]
    omega
  have hsendable : (handleRequest snapshotCb historyCb (MsgHeader.ofBytes header)
      ((header ++ rest).drop MsgHeader.size)
      (jsonInit (response.drop MsgHeader.size) payloadSize)).Sendable :=
    sendable_handleRequest hbuf _ _
  rw [handleClient, if_neg hlong]
  simp only [ofBytes_append hlen, if_neg (not_not.2 hmagic)]
  refine ⟨_, _, rfl, rfl, rfl, rfl, rfl, ?_, ?_⟩
  · rw [hsendable.length]
    exact UInt32.toNat_ofNat_of_lt' (Nat.lt_trans hsendable.lt (by decide))
  · rw [hsendable.length]
    exact hsendable.lt

/-- **What a client gets**: nothing for less than a header or a wrong magic, and otherwise exactly
one frame. `response` is the array on the stack, as it happens to be. -/
theorem handleConnection_frame (response : Bytes) (hresponse : response.length = qmemMsgMaxSize)
    (pieces : List Bytes) :
    let request := MsgHeader.ofBytes (pieces.flatten.take MsgHeader.size)
    let sent := handleConnection snapshotCb historyCb response pieces
    (pieces.flatten.length < MsgHeader.size ∨ request.magic ≠ qmemMsgMagic → sent = []) ∧
      (MsgHeader.size ≤ pieces.flatten.length → request.magic = qmemMsgMagic →
        IsAnswer request sent) := by
  intro request sent
  have hheader := (recvAll_flatten MsgHeader.size pieces).1
  have hlen : (pieces.flatten.take MsgHeader.size).length =
      min MsgHeader.size pieces.flatten.length := List.length_take
  have hsent : sent = if pieces.flatten.length < MsgHeader.size then [] else
      handleClient snapshotCb historyCb response (pieces.flatten.take MsgHeader.size ++
        (recvAll 4 (recvAll MsgHeader.size pieces).2).1) := by
    simp only [sent, handleConnection, hheader, hlen]
    split
    · case isTrue hshort => rw [if_pos (by omega)]
    · case isFalse hfull => rw [if_neg (by omega)]
  rw [hsent]
  split
  · case isTrue hshort => exact ⟨fun _ => rfl, fun hle => absurd hshort (by omega)⟩
  · case isFalse hfull =>
    have hsize : (pieces.flatten.take MsgHeader.size).length = MsgHeader.size := by omega
    refine ⟨fun hbad => ?_, fun _ hmagic => handleClient_answer hresponse hsize hmagic _⟩
    have hwrong : request.magic ≠ qmemMsgMagic := hbad.resolve_left hfull
    have hlong : ¬ (pieces.flatten.take MsgHeader.size ++
        (recvAll 4 (recvAll MsgHeader.size pieces).2).1).length < MsgHeader.size := by
      rw [List.length_append]
      omega
    rw [handleClient, if_neg hlong]
    simp only [ofBytes_append hsize]
    exact if_pos hwrong

/-- A request for the list of services, whose header comes in two pieces. -/
theorem handleConnection_frame_split :
    let header := { MsgHeader.init ReqType.services.code 0 with seq := 7 }
    IsAnswer header (handleConnection none none (List.replicate qmemMsgMaxSize 0)
      [header.bytes.take 5, header.bytes.drop 5]) :=
  (handleConnection_frame (List.replicate qmemMsgMaxSize 0) List.length_replicate
    [({ MsgHeader.init ReqType.services.code 0 with seq := 7 } : MsgHeader).bytes.take 5,
      ({ MsgHeader.init ReqType.services.code 0 with seq := 7 } : MsgHeader).bytes.drop 5]).2
    (by decide) (by decide)

end Qmem
