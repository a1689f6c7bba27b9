import Qmem.Daemon.Serve
import Qmem.Lib.Scan
import Qmem.Lib.Scanf

/-!
# The HTTP server (`web/http_server.c`, `web/api.c`, `web/static_files.c`)

A connection carries one request and its answer, and the path alone decides which answer it is:
`handleClient_eq`.
-/

namespace Qmem

namespace Http

open CLib

/-! ## Requests and responses -/

/-- `http_request_t`; `body` has `body_len` bytes. -/
structure HttpRequest where
  method : CStr
  path : CStr
  query : CStr
  body : Option Bytes

abbrev Handler := HttpRequest → HttpResponse → HttpResponse

def crlf : Bytes := [0x0d, 0x0a]

/-- `parse_request`, of a buffer with `len` bytes and a NUL; `none` for -1. -/
def parseRequest (buf : Bytes) (len : Nat) : Option HttpRequest :=
  let text := (cstr buf).bytes
  match strstr text crlf with
  | none => none
  | some _ =>
    match sscanf [.string 15, .blank, .string 1023] text with
    | [.text method, .text path] =>
      some {
        method := cstr method
        path := (cstr path).upTo 0x3f
        query := match strchr (cstr path).bytes 0x3f with
          | some q => (cstr q.tail).cut 1023
          | none => .lit ""
        body := (strstr text (crlf ++ crlf)).map fun start =>
          (buf.take len).drop (text.length - start.length + 4) }
    | _ => none

def statusText (statusCode : Int32) : CStr :=
  if statusCode = 200 then .lit "OK"
  else if statusCode = 201 then .lit "Created"
  else if statusCode = 400 then .lit "Bad Request"
  else if statusCode = 404 then .lit "Not Found"
  else if statusCode = 500 then .lit "Internal Server Error"
  else .lit "Unknown"

def statusLine (statusCode : Int32) : Bytes :=
  (CStr.lit "HTTP/1.1 ").bytes ++ decInt statusCode.toInt ++ 0x20 :: (statusText statusCode).bytes

/-- `send_response`: the header, which fits into its array for every type there is, and the
body. -/
def sendResponse (resp : HttpResponse) : Bytes :=
  statusLine resp.statusCode ++ crlf ++
    ((CStr.lit "Content-Type: ").bytes ++ resp.contentType.bytes ++ crlf ++
      ((CStr.lit "Content-Length: ").bytes ++ decNat resp.body.length ++ crlf ++
        (CStr.lit "Connection: close\r\nAccess-Control-Allow-Origin: *\r\n\r\n").bytes)) ++
    resp.body.bytes

/-! ## Routes -/

/-- `route_t`. -/
structure Route where
  path : CStr
  handler : Handler

/-- `g_routes` and `g_default_handler`. -/
structure HttpServer where
  routes : List Route
  defaultHandler : Option Handler

def httpRegisterHandler (path : CStr) (handler : Handler) (server : HttpServer) : HttpServer :=
  if server.routes.length ≥ 32 then server
  else { server with routes := server.routes ++ [⟨path.cut 127, handler⟩] }

def httpSetDefaultHandler (handler : Handler) (server : HttpServer) : HttpServer :=
  { server with defaultHandler := some handler }

/-- The path of the route, or what its wildcard stands for. -/
def Route.serves (r : Route) (path : CStr) : Bool :=
  r.path = path ||
    r.path.bytes.getLast? = some 0x2a &&
      path.bytes.take (r.path.length - 1) = r.path.bytes.take (r.path.length - 1)

def findHandler (server : HttpServer) (path : CStr) : Option Handler :=
  match server.routes.find? (·.serves path) with
  | some r => some r.handler
  | none => server.defaultHandler

/-- `handle_client`: what it sends; `recvs` are the results that `recv` would give one after the
other, and then the client has nothing more to say. -/
def handleClient (server : HttpServer) (recvs : List Bytes) : Bytes :=
  match recvs with
  | [] => []
  | buf :: _ =>
    if buf.length = 0 then []
    else
      match parseRequest (buf ++ [0]) buf.length with
      | none => sendResponse {
          statusCode := 400, contentType := .lit "text/plain", body := .lit "Bad Request" }
      | some req =>
        match findHandler server req.path with
        | none => sendResponse {
            statusCode := 404, contentType := .lit "text/plain", body := .lit "Not Found" }
        | some handler => sendResponse (handler req {
            statusCode := 200, contentType := .lit "application/json", body := .lit "" })

/-! ## What is served -/

/-- The texts that are compiled in. -/
structure Assets where
  indexHtml : CStr
  styleCss : CStr
  appJs : CStr

/-- `static_file_t`. -/
structure StaticFile where
  path : CStr
  content : CStr
  contentType : CStr

/-- `FILES`. -/
def Assets.files (assets : Assets) : List StaticFile := [
  ⟨.lit "/", assets.indexHtml, .lit "text/html"⟩,
  ⟨.lit "/index.html", assets.indexHtml, .lit "text/html"⟩,
  ⟨.lit "/style.css", assets.styleCss, .lit "text/css"⟩,
  ⟨.lit "/app.js", assets.appJs, .lit "application/javascript"⟩]

def staticFilesHandler (assets : Assets) : Handler := fun req _ =>
  match assets.files.find? (req.path = ·.path) with
  | some f => { statusCode := 200, contentType := f.contentType, body := f.content }
  | none => { statusCode := 404, contentType := .lit "text/plain", body := .lit "Not Found" }

def handleApiHealth : Handler := fun _ _ => {
  statusCode := 200
  contentType := .lit "application/json"
  body := .lit "\x7b\"status\":\"ok\"\x7d" }

/-- `api_init`, for a server that has no routes yet. -/
def apiInit (snapshotCb : Option (Option CStr)) (assets : Assets) : HttpServer :=
  let status : Handler := fun _ => handleApiStatus snapshotCb
  let server : HttpServer := { routes := [], defaultHandler := none }
  let server := httpRegisterHandler (.lit "/api/status") status server
  let server := httpRegisterHandler (.lit "/api/snapshot") status server
  let server := httpRegisterHandler (.lit "/api/health") handleApiHealth server
  httpSetDefaultHandler (staticFilesHandler assets) server

/-! ## The answer -/

/-- What a path leads to. -/
inductive Resource where
  | status
  | health
  | index
  | style
  | script
  | missing
deriving DecidableEq

/-- The paths that are served, with what they lead to. -/
def served : List (CStr × Resource) := [
  (.lit "/api/status", .status), (.lit "/api/snapshot", .status), (.lit "/api/health", .health),
  (.lit "/", .index), (.lit "/index.html", .index), (.lit "/style.css", .style),
  (.lit "/app.js", .script)]

def resource (path : CStr) : Resource :=
  match served.find? (path = ·.1) with
  | some (_, r) => r
  | none => .missing

section

variable (snapshotCb : Option (Option CStr)) (assets : Assets)

/-- The defaults of `handle_client`. -/
def noResponse : HttpResponse where
  statusCode := 200
  contentType := .lit "application/json"
  body := .lit ""

def respond : Resource → HttpResponse
  | .status => handleApiStatus snapshotCb noResponse
  | .health => {
      statusCode := 200
      contentType := .lit "application/json"
      body := .lit "\x7b\"status\":\"ok\"\x7d" }
  | .index => { statusCode := 200, contentType := .lit "text/html", body := assets.indexHtml }
  | .style => { statusCode := 200, contentType := .lit "text/css", body := assets.styleCss }
  | .script => {
      statusCode := 200, contentType := .lit "application/javascript", body := assets.appJs }
  | .missing => { statusCode := 404, contentType := .lit "text/plain", body := .lit "Not Found" }

variable {snapshotCb assets}

/-- A route without a wildcard. -/
theorem serves_iff {route : CStr} (h : route.bytes.getLast? ≠ some 0x2a) (handler : Handler)
    (path : CStr) : Route.serves ⟨route, handler⟩ path = decide (path = route) := by
  simp [Route.serves, h, eq_comm]

variable (snapshotCb assets) in
/-- The path alone decides what a handler answers. -/
theorem findHandler_apiInit (req : HttpRequest) :
    ∃ handler, findHandler (apiInit snapshotCb assets) req.path = some handler ∧
      handler req noResponse = respond snapshotCb assets (resource req.path) := by
  have hroutes : (apiInit snapshotCb assets).routes = [
      ⟨.lit "/api/status", fun _ => handleApiStatus snapshotCb⟩,
      ⟨.lit "/api/snapshot", fun _ => handleApiStatus snapshotCb⟩,
      ⟨.lit "/api/health", handleApiHealth⟩] := rfl
  have hdefault : (apiInit snapshotCb assets).defaultHandler = some (staticFilesHandler assets) :=
    rfl
  have hstatus : (CStr.lit "/api/status").bytes.getLast? ≠ some 0x2a := by decide
  have hsnapshot : (CStr.lit "/api/snapshot").bytes.getLast? ≠ some 0x2a := by decide
  have hhealth : (CStr.lit "/api/health").bytes.getLast? ≠ some 0x2a := by decide
  rw [findHandler, hroutes, hdefault, resource, served]
  simp only [List.find?_cons, List.find?_nil, serves_iff hstatus, serves_iff hsnapshot,
    serves_iff hhealth]
  cases decide (req.path = .lit "/api/status")
  case true => exact ⟨_, rfl, rfl⟩
  cases decide (req.path = .lit "/api/snapshot")
  case true => exact ⟨_, rfl, rfl⟩
  cases decide (req.path = .lit "/api/health")
  case true => exact ⟨_, rfl, rfl⟩
  refine ⟨staticFilesHandler assets, rfl, ?_⟩
  rw [staticFilesHandler, Assets.files]
  simp only [List.find?_cons, List.find?_nil]
  cases decide (req.path = .lit "/")
  case true => rfl
  cases decide (req.path = .lit "/index.html")
  case true => rfl
  cases decide (req.path = .lit "/style.css")
  case true => rfl
  cases decide (req.path = .lit "/app.js")
  case true => rfl
  rfl

/-! ## Requests that are read -/

/-- The path that is read, with its query. -/
def target (text : Bytes) : Bytes := word 1023 (afterWord 15 text)

/-- A line end and two words. -/
structure Readable (text : CStr) : Prop where
  line : crlf <:+: text.bytes
  method : word 15 text.bytes ≠ []
  target : target text.bytes ≠ []

instance (text : CStr) : Decidable (Readable text) :=
  decidable_of_iff (crlf <:+: text.bytes ∧ word 15 text.bytes ≠ [] ∧ target text.bytes ≠ [])
    ⟨fun h => ⟨h.1, h.2.1, h.2.2⟩, fun h => ⟨h.line, h.method, h.target⟩⟩

theorem target_nulFree (text : CStr) : 0 ∉ target text.bytes := fun h =>
  text.nulFree ((List.dropWhile_sublist _).mem (List.mem_of_mem_drop (mem_of_mem_word h)))

/-- The path of a request, up to the query. -/
def pathOf (text : CStr) : CStr := CStr.upTo ⟨target text.bytes, target_nulFree text⟩ 0x3f

theorem sscanf_request (text : Bytes) :
    sscanf [.string 15, .blank, .string 1023] text =
      if word 15 text = [] then []
      else if target text = [] then [.text (word 15 text)]
      else [.text (word 15 text), .text (target text)] := by
  have hblank : sscanf [.blank, .string 1023] (afterWord 15 text) =
      sscanf [.string 1023] ((afterWord 15 text).dropWhile isspace) := rfl
  rw [sscanf_word, hblank, sscanf_word, word_skip, ← target]
  congr 1
  split <;> rfl

/-- `parse_request` reads the path of the text before the first NUL. -/
theorem parseRequest_eq (buf : Bytes) :
    (parseRequest (buf ++ [0]) buf.length).map HttpRequest.path =
      if Readable (cstr buf) then some (pathOf (cstr buf)) else none := by
  have htext : cstr (buf ++ [0]) = cstr buf := CStr.ext (takeWhile_append_self buf [] 0)
  have hword : cstr (target (cstr buf).bytes) = ⟨target (cstr buf).bytes, target_nulFree _⟩ := by
    refine CStr.ext (List.takeWhile_eq_self_iff.2 fun c hc => ?_)
    have hc : c ∈ (⟨target (cstr buf).bytes, target_nulFree _⟩ : CStr).bytes := hc
    simpa using CStr.ne_zero_of_mem hc
  rw [parseRequest, htext, sscanf_request]
  by_cases hline : crlf <:+: (cstr buf).bytes
  · obtain ⟨rest, hrest⟩ := Option.isSome_iff_exists.1 (strstr_isSome_iff.2 hline)
    rw [hrest]
    by_cases hmethod : word 15 (cstr buf).bytes = []
    · have hnot : ¬ Readable (cstr buf) := fun h => h.method hmethod
      rw [if_pos hmethod, if_neg hnot]
      rfl
    · by_cases htarget : target (cstr buf).bytes = []
      · have hnot : ¬ Readable (cstr buf) := fun h => h.target htarget
        rw [if_neg hmethod, if_pos htarget, if_neg hnot]
        rfl
      · have hread : Readable (cstr buf) := ⟨hline, hmethod, htarget⟩
        rw [if_neg hmethod, if_neg htarget, if_pos hread, pathOf, ← hword]
        rfl
  · have hnone : strstr (cstr buf).bytes crlf = none := by
      rw [← Option.not_isSome_iff_eq_none, strstr_isSome_iff]
      exact hline
    have hnot : ¬ Readable (cstr buf) := fun h => hline h.line
    rw [hnone, if_neg hnot]
    rfl

/-- The answer to a request that is not readable. -/
def badRequest : HttpResponse where
  statusCode := 400
  contentType := .lit "text/plain"
  body := .lit "Bad Request"

/-- **What `handle_client` sends**, from the text that the first `recv` delivers. -/
theorem handleClient_eq {buf : Bytes} (hne : buf ≠ []) (recvs : List Bytes) :
    handleClient (apiInit snapshotCb assets) (buf :: recvs) = sendResponse
      (if Readable (cstr buf) then respond snapshotCb assets (resource (pathOf (cstr buf)))
      else badRequest) := by
  have hsome : ¬ buf.length = 0 := fun h => hne (List.length_eq_zero_iff.1 h)
  have hpath := parseRequest_eq buf
  rw [handleClient, if_neg hsome]
  by_cases hread : Readable (cstr buf)
  · rw [if_pos hread, Option.map_eq_some_iff] at hpath
    obtain ⟨req, hreq, hpath⟩ := hpath
    obtain ⟨handler, hfind, hanswer⟩ :=
      findHandler_apiInit snapshotCb assets req
    rw [hreq, if_pos hread, ← hpath, ← hanswer]
    simp only [hfind]
    rfl
  · rw [if_neg hread, Option.map_eq_none_iff] at hpath
    rw [hpath, if_neg hread]
    rfl

end

end Http

end Qmem
