import Qmem.Web.HttpPieces

/-!
# The request line (`parse_request`)

`parse_request` finds the end of the request line and then does not look at it again: `sscanf`
reads on behind a line that is too short, and a word that is too long for its array ends there and
goes on in the next one. All of it stops at the first NUL.

Main result: `parseRequest_right_iff`.
-/

namespace Qmem

namespace Http

open CLib

/-! ## Places -/

/-- How far from the start `strstr` finds the needle. -/
def place (s needle : Bytes) : Option Nat :=
  (strstr s needle).map fun rest => s.length - rest.length

theorem place_eq_some_iff {s needle : Bytes} {n : Nat} :
    place s needle = some n ↔
      n ≤ s.length ∧ needle <+: s.drop n ∧ ∀ m < n, ¬ needle <+: s.drop m := by
  constructor
  · intro h
    obtain ⟨rest, hrest, hn⟩ := Option.map_eq_some_iff.1 h
    obtain ⟨k, hk, rfl, hhere, hfirst⟩ := strstr_eq_some_iff.1 hrest
    rw [List.length_drop] at hn
    obtain rfl : k = n := by omega
    exact ⟨hk, hhere, hfirst⟩
  · rintro ⟨hn, hhere, hfirst⟩
    rw [place, strstr_eq_some_iff.2 ⟨n, hn, rfl, hhere, hfirst⟩, Option.map_some,
      List.length_drop]
    congr 1
    omega

theorem place_eq_none_iff {s needle : Bytes} :
    place s needle = none ↔ ∀ n ≤ s.length, ¬ needle <+: s.drop n := by
  rw [place, Option.map_eq_none_iff, strstr_eq_none_iff]

/-- The bytes before the first NUL. -/
theorem nul_free_take_iff {buf : Bytes} {k : Nat} (hk : k ≤ buf.length) :
    0 ∉ buf.take k ↔ k ≤ (cstr buf).bytes.length := by
  have hcut : (cstr (buf.take k)).bytes = (cstr buf).bytes.take k :=
    congrArg CStr.bytes (cstr_take buf k)
  constructor
  · intro hfree
    have hall : (cstr (buf.take k)).bytes = buf.take k := by
      refine List.takeWhile_eq_self_iff.2 fun c hc => ?_
      have hne : c ≠ 0 := by
        rintro rfl
        exact hfree hc
      simpa using hne
    have hlen := congrArg List.length (hcut.symm.trans hall)
    rw [List.length_take, List.length_take, Nat.min_eq_left hk] at hlen
    omega
  · intro hle hzero
    have hfront : (cstr buf).bytes <+: buf := List.takeWhile_prefix _
    have htake : buf.take k = (cstr buf).bytes.take k := by
      rw [List.prefix_iff_eq_take.1 hfront, List.take_take]
      congr 1
      exact (Nat.min_eq_left hle).symm
    rw [htake] at hzero
    exact (cstr buf).nulFree (List.mem_of_mem_take hzero)

/-- A needle stands in the string where it does in the buffer, before the first NUL. -/
theorem prefix_drop_cstr {buf needle : Bytes} (hne : needle ≠ []) (m : Nat) :
    needle <+: (cstr buf).bytes.drop m ↔
      needle <+: buf.drop m ∧ m + needle.length ≤ (cstr buf).bytes.length := by
  have hpos : 0 < needle.length := List.length_pos_of_ne_nil hne
  have hfront : (cstr buf).bytes <+: buf := List.takeWhile_prefix _
  have hdrop : (cstr buf).bytes.drop m = (buf.drop m).take ((cstr buf).bytes.length - m) := by
    conv_lhs => rw [List.prefix_iff_eq_take.1 hfront]
    exact List.drop_take
  rw [hdrop, List.prefix_take_iff]
  refine and_congr_right fun _ => ?_
  omega

/-- The needle is found in the string if there is no NUL before it. -/
theorem place_cstr {buf needle : Bytes} (hne : needle ≠ []) (hfree : 0 ∉ needle) :
    place (cstr buf).bytes needle = (place buf needle).filter fun n => 0 ∉ buf.take n := by
  have hle : (cstr buf).bytes.length ≤ buf.length := (List.takeWhile_prefix _).length_le
  cases hplace : place buf needle with
  | none =>
    rw [Option.filter_none, place_eq_none_iff]
    intro m _ hhere
    have hbuf := ((prefix_drop_cstr hne m).1 hhere).1
    exact place_eq_none_iff.1 hplace m (by omega) hbuf
  | some n =>
    obtain ⟨hn, hhere, hfirst⟩ := place_eq_some_iff.1 hplace
    by_cases hnul : 0 ∈ buf.take n
    · have hshort : ¬ n ≤ (cstr buf).bytes.length := fun h => (nul_free_take_iff hn).2 h hnul
      rw [Option.filter_some, if_neg (by simpa using hnul), place_eq_none_iff]
      intro m _ hm
      obtain ⟨hbuf, hfits⟩ := (prefix_drop_cstr hne m).1 hm
      exact hfirst m (by omega) hbuf
    · have hall : 0 ∉ buf.take (n + needle.length) := by
        rw [List.take_add, ← List.prefix_iff_eq_take.1 hhere]
        exact fun hmem => (List.mem_append.1 hmem).elim hnul hfree
      have hend : n + needle.length ≤ buf.length := by
        have := hhere.length_le
        rw [List.length_drop] at this
        omega
      have hfits := (nul_free_take_iff hend).1 hall
      rw [Option.filter_some, if_pos (by simpa using hnul), place_eq_some_iff]
      refine ⟨by omega, (prefix_drop_cstr hne n).2 ⟨hhere, hfits⟩, fun m hm hhere' => ?_⟩
      exact hfirst m hm ((prefix_drop_cstr hne m).1 hhere').1

/-! ## Words -/

/-- The first word of a text. -/
def firstWord (s : Bytes) : Bytes := (s.dropWhile isspace).takeWhile isWordChar

/-- What follows it. -/
def afterFirst (s : Bytes) : Bytes := (s.dropWhile isspace).dropWhile isWordChar

def secondWord (s : Bytes) : Bytes := firstWord (afterFirst s)

theorem takeWhile_append_stop {p : UInt8 → Bool} {c : UInt8} (h : p c = false)
    (front rest : Bytes) : (front ++ c :: rest).takeWhile p = front.takeWhile p := by
  induction front with
  | nil => simp [h]
  | cons d front ih => rw [List.cons_append, List.takeWhile_cons, List.takeWhile_cons, ih]

theorem dropWhile_append_stop {p : UInt8 → Bool} {c : UInt8} (h : p c = false)
    (front rest : Bytes) : (front ++ c :: rest).dropWhile p = front.dropWhile p ++ c :: rest := by
  induction front with
  | nil => simp [h]
  | cons d front ih =>
    rw [List.cons_append, List.dropWhile_cons, List.dropWhile_cons]
    split
    · exact ih
    · rfl

/-- A text has a first word if it is not blank. -/
theorem firstWord_eq_nil_iff {s : Bytes} : firstWord s = [] ↔ s.dropWhile isspace = [] := by
  constructor
  · intro h
    cases hdrop : s.dropWhile isspace with
    | nil => rfl
    | cons c rest =>
      have hnot := List.head?_dropWhile_not isspace s
      rw [hdrop] at hnot
      rw [firstWord, hdrop, List.takeWhile_cons, if_pos (by simpa [isWordChar] using hnot)] at h
      exact absurd h (List.cons_ne_nil _ _)
  · intro h
    rw [firstWord, h, List.takeWhile_nil]

theorem firstWord_ne_nil_of_second {s : Bytes} (h : secondWord s ≠ []) : firstWord s ≠ [] := by
  intro hnone
  have hdrop := firstWord_eq_nil_iff.1 hnone
  exact h (by rw [secondWord, afterFirst, hdrop]; rfl)

theorem dropWhile_append_of_ne_nil {p : UInt8 → Bool} {front : Bytes}
    (h : front.dropWhile p ≠ []) (rest : Bytes) :
    (front ++ rest).dropWhile p = front.dropWhile p ++ rest := by
  rw [List.dropWhile_append, if_neg (by simpa using h)]

/-- A line's word is not changed by what follows the line. -/
theorem firstWord_append {line : Bytes} (h : firstWord line ≠ []) {c : UInt8}
    (hc : isspace c = true) (rest : Bytes) :
    firstWord (line ++ c :: rest) = firstWord line ∧
      afterFirst (line ++ c :: rest) = afterFirst line ++ c :: rest := by
  have hdrop : line.dropWhile isspace ≠ [] := fun hnil => h (firstWord_eq_nil_iff.2 hnil)
  have hstop : isWordChar c = false := by simp [isWordChar, hc]
  rw [firstWord, afterFirst, dropWhile_append_of_ne_nil hdrop]
  exact ⟨takeWhile_append_stop hstop _ _, dropWhile_append_stop hstop _ _⟩

theorem secondWord_append {line : Bytes} (h : secondWord line ≠ []) {c : UInt8}
    (hc : isspace c = true) (rest : Bytes) : secondWord (line ++ c :: rest) = secondWord line := by
  rw [secondWord, (firstWord_append (firstWord_ne_nil_of_second h) hc rest).2]
  exact (firstWord_append h hc rest).1

/-- `%s` reads the word, or as much as it has room for. -/
theorem word_eq_take (width : Nat) (s : Bytes) : word width s = (firstWord s).take width := rfl

theorem afterWord_of_fits {width : Nat} {s : Bytes} (h : (firstWord s).length ≤ width) :
    afterWord width s = afterFirst s := by
  have hsplit : s.dropWhile isspace = firstWord s ++ afterFirst s :=
    List.takeWhile_append_dropWhile.symm
  rw [afterWord, word_eq_take, List.take_of_length_le h, hsplit, List.drop_left]

/-! ## What is read, and what the line says -/

/-- `method`, `path`, `query` and `body`. -/
structure RequestParts where
  method : Bytes
  path : Bytes
  query : Bytes
  body : Option Bytes
deriving DecidableEq

def HttpRequest.parts (req : HttpRequest) : RequestParts where
  method := req.method.bytes
  path := req.path.bytes
  query := req.query.bytes
  body := req.body

/-- A request for a target, up to the query and behind it. -/
def requestFor (method target : Bytes) (body : Option Bytes) : RequestParts where
  method := method
  path := target.takeWhile (· ≠ 0x3f)
  query := (target.dropWhile (· ≠ 0x3f)).tail
  body := body

/-- The text before the first line end. -/
def lineOf (buf : Bytes) : Option Bytes := (place buf crlf).map buf.take

/-- What follows the first empty line. -/
def bodyOf (buf : Bytes) : Option Bytes :=
  (place buf (crlf ++ crlf)).map fun n => buf.drop (n + 4)

/-- A line with two words that are not too long. -/
structure RequestLine (line : Bytes) : Prop where
  target : secondWord line ≠ []
  method_fits : (firstWord line).length ≤ 15
  target_fits : (secondWord line).length ≤ 1023

instance (line : Bytes) : Decidable (RequestLine line) :=
  decidable_of_iff (secondWord line ≠ [] ∧ (firstWord line).length ≤ 15 ∧
      (secondWord line).length ≤ 1023)
    ⟨fun h => ⟨h.1, h.2.1, h.2.2⟩, fun h => ⟨h.target, h.method_fits, h.target_fits⟩⟩

/-- The request that the received bytes are. -/
def requestOf (buf : Bytes) : Option RequestParts :=
  (lineOf buf).bind fun line =>
    if RequestLine line then some (requestFor (firstWord line) (secondWord line) (bodyOf buf))
    else none

/-- What `sscanf` finds in the whole string. -/
def scanned (text : Bytes) : Option (Bytes × Bytes) :=
  if word 15 text ≠ [] ∧ target text ≠ [] then some (word 15 text, target text) else none

theorem target_of_fits {text : Bytes} (h : (firstWord text).length ≤ 15) :
    target text = (secondWord text).take 1023 := by
  rw [target, afterWord_of_fits h, word_eq_take, secondWord]

/-- The rest of a word that is too long is the next word. -/
theorem target_of_long {text : Bytes} (h : 15 < (firstWord text).length) : target text ≠ [] := by
  have hsplit : text.dropWhile isspace = firstWord text ++ afterFirst text :=
    List.takeWhile_append_dropWhile.symm
  have hrest : afterWord 15 text = (firstWord text).drop 15 ++ afterFirst text := by
    have hlen : ((firstWord text).take 15).length = 15 := by
      rw [List.length_take]
      omega
    rw [afterWord, word_eq_take, hsplit, hlen, List.drop_append_of_le_length (by omega)]
  obtain ⟨c, more, hmore⟩ := List.exists_cons_of_length_pos
    (show 0 < ((firstWord text).drop 15).length by
      rw [List.length_drop]
      omega)
  have hc : isWordChar c = true := by
    have hmem : c ∈ firstWord text := List.mem_of_mem_drop (by rw [hmore]; exact List.mem_cons_self)
    exact List.mem_takeWhile_imp hmem
  have hspace : isspace c = false := isspace_of_isWordChar c hc
  rw [target, hrest, hmore, List.cons_append, word, List.dropWhile_cons,
    if_neg (by simp [hspace]), List.takeWhile_cons, if_pos hc]
  exact List.cons_ne_nil _ _

theorem scanned_of_fits {text : Bytes} (h : (firstWord text).length ≤ 15) :
    scanned text =
      if secondWord text = [] then none
      else some (firstWord text, (secondWord text).take 1023) := by
  have hword : word 15 text = firstWord text := by
    rw [word_eq_take, List.take_of_length_le h]
  rw [scanned, target_of_fits h, hword]
  by_cases hsecond : secondWord text = []
  · simp [hsecond]
  · have htake : (secondWord text).take 1023 ≠ [] := by simp [hsecond]
    rw [if_neg hsecond, if_pos ⟨firstWord_ne_nil_of_second hsecond, htake⟩]

theorem scanned_of_long {text : Bytes} (h : 15 < (firstWord text).length) :
    (scanned text).isSome := by
  have hword : word 15 text ≠ [] := by
    intro hnone
    have hlen := congrArg List.length hnone
    rw [word_eq_take, List.length_take, List.length_nil] at hlen
    omega
  rw [scanned, if_pos ⟨hword, target_of_long h⟩]
  rfl

theorem cstr_bytes_eq_self {s : Bytes} (h : 0 ∉ s) : (cstr s).bytes = s := by
  refine List.takeWhile_eq_self_iff.2 fun c hc => ?_
  have hne : c ≠ 0 := by
    rintro rfl
    exact h hc
  simpa using hne

/-- The copy of the query has room for all of it. -/
theorem query_bytes {path : Bytes} (hfree : 0 ∉ path) (hlen : path.length ≤ 1023) :
    (match strchr path 0x3f with
      | some q => (cstr q.tail).cut 1023
      | none => CStr.lit "").bytes = (path.dropWhile (· ≠ 0x3f)).tail := by
  have hsub := List.dropWhile_sublist (l := path) (· ≠ 0x3f)
  rw [strchr]
  cases hquery : path.dropWhile (· ≠ 0x3f) with
  | nil => rfl
  | cons c query =>
    rw [hquery] at hsub
    have hqueryFree : 0 ∉ query := fun hmem => hfree (hsub.mem (List.mem_cons_of_mem c hmem))
    have hfits := hsub.length_le
    rw [List.length_cons] at hfits
    show (cstr query).bytes.take 1023 = query
    rw [cstr_bytes_eq_self hqueryFree, List.take_of_length_le (by omega)]

/-- `parse_request`, part by part. -/
theorem parseRequest_parts (buf : Bytes) :
    (parseRequest (buf ++ [0]) buf.length).map HttpRequest.parts =
      (place (cstr buf).bytes crlf).bind fun _ => (scanned (cstr buf).bytes).map fun words =>
        requestFor words.1 words.2
          ((place (cstr buf).bytes (crlf ++ crlf)).map fun n => buf.drop (n + 4)) := by
  have htext : cstr (buf ++ [0]) = cstr buf := CStr.ext (takeWhile_append_self buf [] 0)
  rw [parseRequest, htext, sscanf_request, scanned, place]
  cases strstr (cstr buf).bytes crlf with
  | none => rfl
  | some rest =>
    by_cases hmethod : word 15 (cstr buf).bytes = []
    · simp [hmethod]
    · by_cases htarget : target (cstr buf).bytes = []
      · simp [hmethod, htarget]
      · rw [if_neg hmethod, if_neg htarget, if_pos ⟨hmethod, htarget⟩]
        have hwordFree : 0 ∉ word 15 (cstr buf).bytes := fun h =>
          (cstr buf).nulFree (mem_of_mem_word h)
        have htargetFree : 0 ∉ target (cstr buf).bytes := target_nulFree (cstr buf)
        have hfits : (target (cstr buf).bytes).length ≤ 1023 := List.length_take_le _ _
        have hquery := query_bytes htargetFree hfits
        simp only [Option.map_some, Option.bind_some, HttpRequest.parts, requestFor,
          cstr_bytes_eq_self hwordFree, CStr.upTo, cstr_bytes_eq_self htargetFree,
          List.take_left' rfl, place, Option.map_map, ← hquery]
        rfl

/-! ## Where they agree -/

/-- The first line is read as it stands: a request line without a NUL and no NUL before the empty
line; or no request line, and no two words or a word too long before the first NUL either, if
the NUL is not in the line. -/
def ReadsLine (buf : Bytes) : Prop :=
  ∀ line ∈ lineOf buf,
    if 0 ∈ line then ¬ RequestLine line
    else if secondWord line ≠ [] then
      RequestLine line ∧ ∀ n ∈ place buf (crlf ++ crlf), 0 ∉ buf.take n
    else (firstWord (cstr buf).bytes).length ≤ 15 ∧ secondWord (cstr buf).bytes = []

/-- The string goes on behind a line without a NUL. -/
theorem cstr_of_line {buf : Bytes} {n : Nat} (hplace : place buf crlf = some n)
    (hfree : 0 ∉ buf.take n) : ∃ rest, (cstr buf).bytes = buf.take n ++ 0x0d :: rest := by
  have hcstr : place (cstr buf).bytes crlf = some n := by
    rw [place_cstr (by decide) (by decide), hplace, Option.filter_some, if_pos (by simpa using hfree)]
  obtain ⟨hn, hhere, -⟩ := place_eq_some_iff.1 hcstr
  obtain ⟨rest, hrest⟩ := hhere
  have hfront : (cstr buf).bytes <+: buf := List.takeWhile_prefix _
  refine ⟨0x0a :: rest, ?_⟩
  have htake : (cstr buf).bytes.take n = buf.take n := by
    rw [List.prefix_iff_eq_take.1 hfront, List.take_take, Nat.min_eq_left hn]
  rw [← htake]
  conv_lhs => rw [← List.take_append_drop n (cstr buf).bytes, ← hrest]
  rfl

/-- The body is found if no NUL is before it. -/
theorem body_eq_iff (buf : Bytes) :
    ((place (cstr buf).bytes (crlf ++ crlf)).map fun n => buf.drop (n + 4)) = bodyOf buf ↔
      ∀ n ∈ place buf (crlf ++ crlf), 0 ∉ buf.take n := by
  rw [place_cstr (by decide) (by decide), bodyOf]
  cases place buf (crlf ++ crlf) with
  | none => simp
  | some n => by_cases hnul : 0 ∈ buf.take n <;> simp [Option.filter_some, hnul]

theorem requestFor_eq_iff {method target : Bytes} {body body' : Option Bytes} :
    some (requestFor method target body) = some (requestFor method target body') ↔
      body = body' := by
  simp [requestFor]

/-- Nothing is read where there are no two words, and the first is not too long. -/
theorem scanned_eq_none_iff {text : Bytes} :
    scanned text = none ↔ (firstWord text).length ≤ 15 ∧ secondWord text = [] := by
  by_cases hlong : 15 < (firstWord text).length
  · have hsome := scanned_of_long hlong
    refine iff_of_false (fun hnone => ?_) fun h => absurd h.1 (not_le.2 hlong)
    rw [hnone] at hsome
    exact absurd hsome (by decide)
  · have hfits := not_lt.1 hlong
    rw [scanned_of_fits hfits]
    by_cases hnone : secondWord text = [] <;> simp [hnone, hfits]

/-- What is read of a line of two words. -/
theorem read_line_iff {buf : Bytes} {n : Nat} (hplace : place buf crlf = some n)
    (hfree : 0 ∉ buf.take n) (hsecond : secondWord (buf.take n) ≠ []) (body : Option Bytes) :
    (scanned (cstr buf).bytes).map (fun words => requestFor words.1 words.2 body) =
        (if RequestLine (buf.take n) then
          some (requestFor (firstWord (buf.take n)) (secondWord (buf.take n)) (bodyOf buf))
        else none) ↔
      RequestLine (buf.take n) ∧ body = bodyOf buf := by
  obtain ⟨rest, hrest⟩ := cstr_of_line hplace hfree
  have hspace : isspace 0x0d = true := by decide
  have hfirst : firstWord (cstr buf).bytes = firstWord (buf.take n) := by
    rw [hrest]
    exact (firstWord_append (firstWord_ne_nil_of_second hsecond) hspace rest).1
  have hword : secondWord (cstr buf).bytes = secondWord (buf.take n) := by
    rw [hrest]
    exact secondWord_append hsecond hspace rest
  by_cases hlong : 15 < (firstWord (buf.take n)).length
  · have hnot : ¬ RequestLine (buf.take n) := fun h => absurd h.method_fits (not_le.2 hlong)
    obtain ⟨words, hwords⟩ := Option.isSome_iff_exists.1 (scanned_of_long (hfirst ▸ hlong))
    simp [hnot, hwords]
  · have hfits := not_lt.1 hlong
    rw [scanned_of_fits (hfirst ▸ hfits), hfirst, hword, if_neg hsecond, Option.map_some]
    by_cases hline : RequestLine (buf.take n)
    · rw [if_pos hline, List.take_of_length_le hline.target_fits, requestFor_eq_iff]
      exact (and_iff_right hline).symm
    · simp [hline]

/-- **`parse_request` reads the first line exactly when it meets nothing else**: no NUL, no word
that is too long and no line with fewer than two words. -/
theorem parseRequest_right_iff (buf : Bytes) :
    (parseRequest (buf ++ [0]) buf.length).map HttpRequest.parts = requestOf buf ↔
      ReadsLine buf := by
  rw [parseRequest_parts, place_cstr (by decide) (by decide), requestOf, ReadsLine, lineOf]
  cases hplace : place buf crlf with
  | none => simp
  | some n =>
    simp only [Option.map_some, Option.bind_some, Option.mem_some_iff, forall_eq']
    by_cases hnul : 0 ∈ buf.take n
    · -- The NUL ends the text before the line ends.
      rw [Option.filter_some, if_neg (by simpa using hnul), if_pos hnul]
      by_cases hline : RequestLine (buf.take n) <;> simp [hline]
    · rw [Option.filter_some, if_pos (by simpa using hnul), if_neg hnul, Option.bind_some]
      by_cases hsecond : secondWord (buf.take n) = []
      · -- Nothing in the line to read: the next lines count.
        have hnot : ¬ RequestLine (buf.take n) := fun h => h.target hsecond
        rw [if_neg hnot, if_neg (not_not.2 hsecond), Option.map_eq_none_iff, scanned_eq_none_iff]
      · rw [if_pos hsecond, read_line_iff hplace hnul hsecond, body_eq_iff]

/-- The query after the first '?' and a body with a NUL in it. -/
example :
    requestOf ((CStr.lit "GET /a?b?c H\x0d\x0a\x0d\x0a").bytes ++ [0x78, 0, 0x79]) =
      some ⟨(CStr.lit "GET").bytes, (CStr.lit "/a").bytes, (CStr.lit "b?c").bytes,
        some [0x78, 0, 0x79]⟩ := by decide

/-- A line of one word, and the next line's is taken for the path. -/
theorem parseRequest_next_line :
    requestOf (CStr.lit "GET\x0d\x0aHost: x\x0d\x0a\x0d\x0a").bytes = none ∧
      (parseRequest ((CStr.lit "GET\x0d\x0aHost: x\x0d\x0a\x0d\x0a").bytes ++ [0]) 16).map
          HttpRequest.parts =
        some ⟨(CStr.lit "GET").bytes, (CStr.lit "Host:").bytes, [], some []⟩ := by
  decide

end Http

end Qmem
