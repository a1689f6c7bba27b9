import Qmem.Lib.HttpMessage
import Qmem.Web.HttpServer

/-!
# What a browser reads (`send_response`)

Whatever a request has in it, its answer is one message: a browser that reads the fields finds the
type of the body, and the length at which the body ends. Nothing that the body has in it is taken
for a field or for another answer.

Main result: `http_answer_read`.
-/

namespace Qmem

namespace Http

open CLib HttpMessage

/-- The message that `send_response` writes. -/
def message (resp : HttpResponse) : Message where
  status := resp.statusCode.toInt.toNat
  reason := (statusText resp.statusCode).bytes
  fields := [
    ⟨(CStr.lit "Content-Type").bytes, resp.contentType.bytes⟩,
    ⟨(CStr.lit "Content-Length").bytes, decNat resp.body.length⟩,
    ⟨(CStr.lit "Connection").bytes, (CStr.lit "close").bytes⟩,
    ⟨(CStr.lit "Access-Control-Allow-Origin").bytes, (CStr.lit "*").bytes⟩]
  body := resp.body.bytes

theorem sendResponse_eq {resp : HttpResponse} (hstatus : 0 ≤ resp.statusCode.toInt) :
    sendResponse resp = (message resp).text := by
  have htype : (CStr.lit "Content-Type: ").bytes =
      (CStr.lit "Content-Type").bytes ++ [0x3a, 0x20] := by decide
  have hlength : (CStr.lit "Content-Length: ").bytes =
      (CStr.lit "Content-Length").bytes ++ [0x3a, 0x20] := by decide
  have hlast : (CStr.lit "Connection: close\r\nAccess-Control-Allow-Origin: *\r\n\r\n").bytes =
      fieldsText [⟨(CStr.lit "Connection").bytes, (CStr.lit "close").bytes⟩,
        ⟨(CStr.lit "Access-Control-Allow-Origin").bytes, (CStr.lit "*").bytes⟩] ++
          HttpMessage.crlf := by decide
  have hcode : decInt resp.statusCode.toInt = decNat resp.statusCode.toInt.toNat := by
    rw [decInt, if_neg (Int.not_lt.2 hstatus)]
    congr 1
    omega
  have hcrlf : Http.crlf = HttpMessage.crlf := rfl
  have hversion : HttpMessage.version = .lit "HTTP/1.1 " := rfl
  rw [sendResponse, Http.statusLine, hcode, htype, hlength, hlast, hcrlf]
  simp [message, Message.text, Message.statusLine, fieldsText, Field.text, hversion]

/-- The response has a code of three digits and a type that fits on its line. -/
structure Sendable (resp : HttpResponse) : Prop where
  status : 100 ≤ resp.statusCode.toInt ∧ resp.statusCode.toInt < 1000
  contentType : IsValue resp.contentType.bytes

instance (resp : HttpResponse) : Decidable (Sendable resp) :=
  decidable_of_iff ((100 ≤ resp.statusCode.toInt ∧ resp.statusCode.toInt < 1000) ∧
    IsValue resp.contentType.bytes) ⟨fun h => ⟨h.1, h.2⟩, fun h => ⟨h.1, h.2⟩⟩

theorem Sendable.of {statusCode : Int32} {contentType : CStr}
    (hstatus : 100 ≤ statusCode.toInt ∧ statusCode.toInt < 1000)
    (htype : IsValue contentType.bytes) (body : CStr) :
    Sendable ⟨statusCode, contentType, body⟩ := ⟨hstatus, htype⟩

theorem statusText_line (statusCode : Int32) : 0x0d ∉ (statusText statusCode).bytes := by
  unfold statusText
  repeat' split
  all_goals decide

/-- A number is a value. -/
theorem isValue_decNat (n : Nat) : IsValue (decNat n) := by
  have hdigit := Json.decNat_all_digit n
  have hblank : ∀ c ∈ decNat n, isBlank c = false := by
    intro c hc
    have hd := hdigit c hc
    simp only [Json.isDigit, Bool.and_eq_true, decide_eq_true_eq] at hd
    simp only [isBlank, Bool.or_eq_false_iff, decide_eq_false_iff_not]
    constructor <;> rintro rfl <;> exact absurd hd.1 (by decide)
  have htrim {s : Bytes} (hs : ∀ c ∈ s, isBlank c = false) : s.dropWhile isBlank = s := by
    cases s with
    | nil => rfl
    | cons c s => rw [List.dropWhile_cons, if_neg (by simp [hs c])]
  refine ⟨fun hc => absurd (hdigit _ hc) (by decide), ?_⟩
  rw [HttpMessage.trim, htrim hblank, htrim fun c hc => hblank c (List.mem_reverse.1 hc),
    List.reverse_reverse]

theorem message_valid {resp : HttpResponse} (h : Sendable resp) : (message resp).Valid where
  status := by
    have hstatus := h.status
    simp only [message]
    omega
  reason := statusText_line _
  fields f hf := by
    simp only [message, List.mem_cons, List.not_mem_nil, or_false] at hf
    have htype : IsName (CStr.lit "Content-Type").bytes := by decide
    have hlength : IsName (CStr.lit "Content-Length").bytes := by decide
    rcases hf with rfl | rfl | rfl | rfl
    · exact ⟨htype, h.contentType⟩
    · exact ⟨hlength, isValue_decNat _⟩
    · exact ⟨by decide, by decide⟩
    · exact ⟨by decide, by decide⟩
  length := by
    have htype : (CStr.lit "Content-Type").bytes.map lower ≠
        (CStr.lit "Content-Length").bytes.map lower := by decide
    simp [message, lookup, htype, CStr.length]

/-- What `send_response` sends is read back, whatever comes behind it. -/
theorem sendResponse_read {resp : HttpResponse} (h : Sendable resp) (rest : Bytes) :
    read (sendResponse resp ++ rest) = some (message resp, rest) := by
  have hstatus := h.status
  rw [sendResponse_eq (by omega), read_text (message_valid h)]

/-- The responses there are can be sent. -/
theorem respond_sendable (snapshotCb : Option (Option CStr)) (assets : Assets) (r : Resource) :
    Sendable (respond snapshotCb assets r) := by
  cases r with
  | status =>
    simp only [respond, handleApiStatus]
    split
    · exact .of (by decide) (by decide) _
    · exact .of (by decide) (by decide) _
  | health | index | style | script | missing => exact .of (by decide) (by decide) _

/-- Whatever a client sends, it gets one whole message back and nothing behind it: the code and the
body of the resource that it has asked for, under the type of that body, or the ones of a request
that is not readable. -/
theorem http_answer_read (snapshotCb : Option (Option CStr)) (assets : Assets) {buf : Bytes}
    (hne : buf ≠ []) (recvs : List Bytes) :
    let resp := if Readable (cstr buf) then
      respond snapshotCb assets (resource (pathOf (cstr buf))) else badRequest
    ∃ m, read (handleClient (apiInit snapshotCb assets) (buf :: recvs)) = some (m, []) ∧
      (m.status : Int) = resp.statusCode.toInt ∧ m.body = resp.body.bytes ∧
      lookup (.lit "Content-Type") m.fields = some resp.contentType.bytes := by
  intro resp
  have hsend : Sendable resp := by
    by_cases hread : Readable (cstr buf)
    · simp only [resp, if_pos hread]
      exact respond_sendable snapshotCb assets _
    · simp only [resp, if_neg hread]
      decide
  have hstatus := hsend.status
  refine ⟨message resp, ?_, by simp only [message]; omega, rfl, by simp [message, lookup]⟩
  rw [handleClient_eq hne]
  have hwhole := sendResponse_read hsend []
  rwa [List.append_nil] at hwhole

/-- A path that is not there. -/
theorem http_answer_read_missing :
    ∃ m, read (handleClient (apiInit none ⟨.lit "", .lit "", .lit ""⟩)
        [(CStr.lit "GET /nothing HTTP/1.1\r\n\r\n").bytes]) = some (m, []) ∧
      (m.status : Int) = 404 ∧ m.body = (CStr.lit "Not Found").bytes ∧
      lookup (.lit "Content-Type") m.fields = some (CStr.lit "text/plain").bytes := by
  have hread : Readable (cstr (CStr.lit "GET /nothing HTTP/1.1\r\n\r\n").bytes) := by decide
  have hne : (CStr.lit "GET /nothing HTTP/1.1\r\n\r\n").bytes ≠ [] := by decide
  have hpath : resource (pathOf (cstr (CStr.lit "GET /nothing HTTP/1.1\r\n\r\n").bytes)) =
      .missing := by decide
  obtain ⟨m, hm, hstatus, hbody, htype⟩ := http_answer_read none ⟨.lit "", .lit "", .lit ""⟩ hne []
  rw [if_pos hread, hpath] at hstatus hbody htype
  exact ⟨m, hm, hstatus, hbody, htype⟩

end Http

end Qmem
