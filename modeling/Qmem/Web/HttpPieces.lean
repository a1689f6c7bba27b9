import Qmem.Web.HttpServer

/-!
# Requests that come in pieces (`web/http_server.c`)

`handle_client` calls `recv` once. The answer is the one to the whole request if and only if the
first piece has a line end in it and enough of the path.

Main result: `http_pieces_iff`.
-/

namespace Qmem

namespace Http

open CLib

/-! ## The first bytes of a request -/

/-- Where the path starts. -/
def pathStart (text : Bytes) : Nat :=
  (text.takeWhile isspace).length + (word 15 text).length +
    ((afterWord 15 text).takeWhile isspace).length

theorem target_take (text : Bytes) (k : Nat) :
    target (text.take k) = (target text).take (k - pathStart text) := by
  rw [target, target, afterWord_take, word_take, pathStart, Nat.sub_sub, Nat.sub_sub,
    Nat.add_assoc]

variable {text : CStr} {k : Nat}

theorem Readable.of_cut (h : Readable (text.cut k)) : Readable text := by
  have hmethod := h.method
  have htarget := h.target
  rw [CStr.cut_bytes] at hmethod htarget
  refine ⟨h.line.trans (List.take_prefix k _).isInfix, fun hnone => ?_, fun hnone => ?_⟩
  · rw [word_take, hnone, List.take_nil] at hmethod
    exact hmethod rfl
  · rw [target_take, hnone, List.take_nil] at htarget
    exact htarget rfl

/-- The first bytes of a readable text need a line end and the start of the path. -/
theorem readable_cut_iff (h : Readable text) :
    Readable (text.cut k) ↔ crlf <:+: text.bytes.take k ∧ pathStart text.bytes < k := by
  constructor
  · intro hcut
    refine ⟨hcut.line, Nat.lt_of_not_le fun hle => hcut.target ?_⟩
    rw [CStr.cut_bytes, target_take, Nat.sub_eq_zero_of_le hle, List.take_zero]
  · rintro ⟨hline, hstart⟩
    refine ⟨hline, ?_, ?_⟩
    · have hwhole : (word 15 text.bytes).length ≤ k - (text.bytes.takeWhile isspace).length := by
        rw [pathStart] at hstart
        omega
      rw [CStr.cut_bytes, word_take, List.take_of_length_le hwhole]
      exact h.method
    · have hpos := List.length_pos_iff.2 h.target
      rw [CStr.cut_bytes, target_take]
      exact List.ne_nil_of_length_pos (by rw [List.length_take]; omega)

theorem pathOf_cut (text : CStr) (k : Nat) : (pathOf (text.cut k)).bytes <+: (pathOf text).bytes := by
  have hcut : (pathOf (text.cut k)).bytes =
      ((target text.bytes).take (k - pathStart text.bytes)).takeWhile (· ≠ 0x3f) :=
    congrArg (List.takeWhile _) (target_take text.bytes k)
  rw [hcut, ← List.take_takeWhile]
  exact List.take_prefix _ _

/-! ## Paths that lead to the same -/

/-- A path, and the same path with something behind it, perhaps, lead to the same. -/
def SameFile (a b : CStr) : Prop :=
  a = b ∨ (a ∉ served.map Prod.fst ∧ b ∉ served.map Prod.fst) ∨
    (a = .lit "/" ∧ b = .lit "/index.html")

theorem resource_served : ∀ e ∈ served, resource e.1 = e.2 := by decide

theorem resource_missing {path : CStr} (h : path ∉ served.map Prod.fst) :
    resource path = .missing := by
  have hnone : served.find? (path = ·.1) = none := by
    refine List.find?_eq_none.2 fun e he heq => h (List.mem_map.2 ⟨e, he, ?_⟩)
    exact (of_decide_eq_true heq).symm
  rw [resource, hnone]

theorem SameFile.resource_eq {a b : CStr} (h : SameFile a b) : resource a = resource b := by
  rcases h with rfl | ⟨ha, hb⟩ | ⟨rfl, rfl⟩
  · rfl
  · rw [resource_missing ha, resource_missing hb]
  · rfl

/-- The type of the answer. -/
def Resource.contentType : Resource → CStr
  | .status | .health => .lit "application/json"
  | .index => .lit "text/html"
  | .style => .lit "text/css"
  | .script => .lit "application/javascript"
  | .missing => .lit "text/plain"

theorem served_types : ∀ e ∈ served, e.2.contentType ≠ .lit "text/plain" := by decide

theorem served_start : ∀ e ∈ served, ∀ f ∈ served, e.1.bytes <+: f.1.bytes →
    e.2.contentType = f.2.contentType →
      e.1 = f.1 ∨ (e.1 = .lit "/" ∧ f.1 = .lit "/index.html") := by
  decide

/-- Two answers of one type are the same if the one path begins with the other. -/
theorem sameFile_of_type {a b : CStr} (hfirst : a.bytes <+: b.bytes)
    (htype : (resource a).contentType = (resource b).contentType) : SameFile a b := by
  by_cases ha : a ∈ served.map Prod.fst
  · obtain ⟨e, he, rfl⟩ := List.mem_map.1 ha
    rw [resource_served e he] at htype
    by_cases hb : b ∈ served.map Prod.fst
    · obtain ⟨f, hf, rfl⟩ := List.mem_map.1 hb
      rw [resource_served f hf] at htype
      exact (served_start e he f hf hfirst htype).imp_right .inr
    · rw [resource_missing hb] at htype
      exact absurd htype (served_types e he)
  · by_cases hb : b ∈ served.map Prod.fst
    · obtain ⟨f, hf, rfl⟩ := List.mem_map.1 hb
      rw [resource_missing ha, resource_served f hf] at htype
      exact absurd htype.symm (served_types f hf)
    · exact .inr (.inl ⟨ha, hb⟩)

/-! ## Answers that are the same -/

theorem statusLine_no_cr (statusCode : Int32) : 0x0d ∉ statusLine statusCode := by
  have hcode : 0x0d ∉ decInt statusCode.toInt := fun h =>
    absurd (Json.decInt_all_numChar _ _ h) (by decide)
  have htext : 0x0d ∉ (statusText statusCode).bytes := by
    rw [statusText]
    split_ifs <;> decide
  rw [statusLine, List.mem_append, List.mem_append, List.mem_cons, not_or, not_or, not_or]
  exact ⟨⟨by decide, hcode⟩, by decide, htext⟩

/-- A line can be told from what follows it. -/
theorem line_inj {a b r s : Bytes} (ha : 0x0d ∉ a) (hb : 0x0d ∉ b)
    (h : a ++ crlf ++ r = b ++ crlf ++ s) : a = b ∧ r = s := by
  have hline {x t : Bytes} (hx : 0x0d ∉ x) : (x ++ crlf ++ t).takeWhile (· ≠ 0x0d) = x := by
    rw [crlf, List.append_assoc, List.cons_append, takeWhile_append_self]
    exact List.takeWhile_eq_self_iff.2 fun c hc => decide_eq_true fun heq => hx (heq ▸ hc)
  have hfirst : a = b := by rw [← hline ha, h, hline hb]
  rw [hfirst] at h
  exact ⟨hfirst, List.append_cancel_left h⟩

/-- The status and the type can be told from the answer. -/
theorem sendResponse_type {a b : HttpResponse} (ha : 0x0d ∉ a.contentType.bytes)
    (hb : 0x0d ∉ b.contentType.bytes) (h : sendResponse a = sendResponse b) :
    statusLine a.statusCode = statusLine b.statusCode ∧ a.contentType = b.contentType := by
  rw [sendResponse, sendResponse, List.append_assoc _ _ a.body.bytes,
    List.append_assoc _ _ b.body.bytes] at h
  obtain ⟨hstatus, h⟩ := line_inj (statusLine_no_cr _) (statusLine_no_cr _) h
  have hname : 0x0d ∉ (CStr.lit "Content-Type: ").bytes := by decide
  rw [List.append_assoc _ _ a.body.bytes, List.append_assoc _ _ b.body.bytes] at h
  obtain ⟨htype, -⟩ := line_inj (by rw [List.mem_append, not_or]; exact ⟨hname, ha⟩)
    (by rw [List.mem_append, not_or]; exact ⟨hname, hb⟩) h
  exact ⟨hstatus, CStr.ext (List.append_cancel_left htype)⟩

section

variable (snapshotCb : Option (Option CStr)) (assets : Assets)

theorem respond_contentType (r : Resource) :
    (respond snapshotCb assets r).contentType = r.contentType := by
  cases r with
  | status =>
    rcases snapshotCb with _ | _ | snapshot
    · rfl
    · rfl
    · rfl
  | _ => rfl

theorem contentType_no_cr (r : Resource) : 0x0d ∉ r.contentType.bytes := by
  cases r <;> decide

/-- A request that is read is not answered like one that is not. -/
theorem respond_ne_badRequest (r : Resource) :
    sendResponse (respond snapshotCb assets r) ≠ sendResponse badRequest := by
  intro h
  have hcr := contentType_no_cr r
  rw [← respond_contentType snapshotCb assets r] at hcr
  obtain ⟨hstatus, htype⟩ := sendResponse_type hcr (by decide) h
  rw [respond_contentType] at htype
  cases r with
  | missing =>
    have hother : statusLine 404 ≠ statusLine 400 := by decide
    exact hother hstatus
  | _ => exact absurd htype (by decide)

theorem respond_eq_iff {a b : CStr} (hfirst : a.bytes <+: b.bytes) :
    sendResponse (respond snapshotCb assets (resource a)) =
      sendResponse (respond snapshotCb assets (resource b)) ↔ SameFile a b := by
  constructor
  · intro h
    have hcr := contentType_no_cr
    simp only [← respond_contentType snapshotCb assets] at hcr
    have htype := (sendResponse_type (hcr _) (hcr _) h).2
    rw [respond_contentType, respond_contentType] at htype
    exact sameFile_of_type hfirst htype
  · intro h
    rw [h.resource_eq]

end

/-! ## Pieces -/

/-- The first `k` bytes of a request say what the whole does. -/
structure Suffices (text : CStr) (k : Nat) : Prop where
  line : crlf <:+: text.bytes.take k
  path : pathStart text.bytes < k
  same : SameFile (pathOf (text.cut k)) (pathOf text)

theorem cstr_take (buf : Bytes) (k : Nat) : cstr (buf.take k) = (cstr buf).cut k :=
  CStr.ext List.take_takeWhile.symm

/-- **Requests in pieces** are answered like whole ones if and only if these are not readable
anyway, or their first pieces say enough. -/
theorem http_pieces_iff (snapshotCb : Option (Option CStr)) (assets : Assets)
    (pieces : List Bytes) (hpieces : ∀ p ∈ pieces, p ≠ []) :
    handleClient (apiInit snapshotCb assets) pieces =
        handleClient (apiInit snapshotCb assets) [pieces.flatten] ↔
      ¬ Readable (cstr pieces.flatten) ∨
        Suffices (cstr pieces.flatten) (pieces.headD []).length := by
  cases pieces with
  | nil => exact iff_of_true rfl (.inl (by decide))
  | cons first later =>
    have hfirst := hpieces first List.mem_cons_self
    have hwhole : (first :: later).flatten ≠ [] := by simp [hfirst]
    have hpiece : cstr first = (cstr (first :: later).flatten).cut first.length := by
      rw [← cstr_take, List.flatten_cons, List.take_left]
    rw [handleClient_eq hfirst, handleClient_eq hwhole, hpiece, List.headD_cons]
    generalize cstr (first :: later).flatten = text
    by_cases hread : Readable text
    · rw [if_pos hread, or_iff_right (not_not.2 hread)]
      by_cases hcut : Readable (text.cut first.length)
      · rw [if_pos hcut, respond_eq_iff snapshotCb assets (pathOf_cut text _)]
        obtain ⟨hline, hpath⟩ := (readable_cut_iff hread).1 hcut
        exact ⟨fun h => ⟨hline, hpath, h⟩, fun h => h.same⟩
      · rw [if_neg hcut]
        refine iff_of_false (respond_ne_badRequest snapshotCb assets _).symm fun h => hcut ?_
        exact (readable_cut_iff hread).2 ⟨h.line, h.path⟩
    · have hcut : ¬ Readable (text.cut first.length) := fun h => hread h.of_cut
      rw [if_neg hread, if_neg hcut]
      exact iff_of_true rfl (.inl hread)

/-- The headers come later. -/
theorem http_pieces_iff_headers :
    handleClient (apiInit none ⟨.lit "<html>", .lit "", .lit ""⟩)
        [(CStr.lit "GET /index.html HTTP/1.1\r\n").bytes, (CStr.lit "Host: qmem\r\n\r\n").bytes] =
      handleClient (apiInit none ⟨.lit "<html>", .lit "", .lit ""⟩)
        [(CStr.lit "GET /index.html HTTP/1.1\r\nHost: qmem\r\n\r\n").bytes] :=
  (http_pieces_iff none ⟨.lit "<html>", .lit "", .lit ""⟩
    [(CStr.lit "GET /index.html HTTP/1.1\r\n").bytes, (CStr.lit "Host: qmem\r\n\r\n").bytes]
    (by decide)).2 (.inr ⟨by decide, by decide, .inl (by decide)⟩)

/-- The line end comes later. -/
theorem late_line_end :
    handleClient (apiInit none ⟨.lit "<html>", .lit "", .lit ""⟩)
        [(CStr.lit "GET / HTTP/1.1").bytes, (CStr.lit "\r\n\r\n").bytes] ≠
      handleClient (apiInit none ⟨.lit "<html>", .lit "", .lit ""⟩)
        [(CStr.lit "GET / HTTP/1.1\r\n\r\n").bytes] := by
  rw [handleClient_eq (by decide), handleClient_eq (by decide), if_neg (by decide),
    if_pos (by decide)]
  exact (respond_ne_badRequest none _ _).symm

end Http

end Qmem
