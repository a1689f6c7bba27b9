import Qmem.Cli.Document
import Qmem.Cli.ValueUnique

/-!
# What is shown of a document

What the command shows is the value if it begins at one with that text and ends where it ends. It
ends there if the value is a string, or a number without a plus sign, or if the brackets of an
object or an array are even one byte before its end, which braces in its strings or its keys can
bring about, and nothing else.

Main result: `print_json_section_iff`.
-/

namespace Qmem

open CLib

section

variable {δ : Type} {printG : δ → CStr}

/-! ## The end of a value -/

/-- The texts that the command shows whole: a string, a number with no plus sign, and an object or
an array whose brackets are even one byte too early. -/
def Printable (value : Bytes) : Prop :=
  if value.head? = some 0x7b then ClosesEarly 0x7b 0x7d value.tail
  else if value.head? = some 0x5b then ClosesEarly 0x5b 0x5d value.tail
  else if value.head? = some 0x22 then True
  else 0x2b ∉ value

/-- What comes behind a number or a word does not go on with it. -/
def NotContinued (value rest : Bytes) : Prop :=
  value.head? ∈ [some 0x7b, some 0x5b, some 0x22] ∨ ∀ c ∈ rest.head?, tokenChar c = false

theorem dropWhile_append_eq_iff {p : UInt8 → Bool} {s r : Bytes} :
    (s ++ r).dropWhile p = r ↔ (∀ c ∈ s, p c = true) ∧ ∀ c ∈ r.head?, p c = false := by
  constructor
  · intro h
    have hsplit := List.takeWhile_append_dropWhile (p := p) (l := s ++ r)
    have htake : (s ++ r).takeWhile p = s := by
      rw [h] at hsplit
      exact List.append_cancel_right hsplit
    refine ⟨fun c hc => List.all_eq_true.1 (List.all_takeWhile (l := s ++ r)) c ?_, fun c hc => ?_⟩
    · rwa [htake]
    · have hhead := List.head?_dropWhile_not p (s ++ r)
      rw [h, hc] at hhead
      simpa using hhead
  · rintro ⟨hs, hr⟩
    exact Json.dropWhile_of_all hs hr

theorem ScalarText.head_not_mem {s : Bytes} (h : ScalarText s) (r : Bytes) :
    (s ++ r).head? ≠ some 0x7b ∧ (s ++ r).head? ≠ some 0x5b ∧ (s ++ r).head? ≠ some 0x22 := by
  have hne {c : UInt8} (hc : c = 0x5b ∨ c = 0x7b ∨ c = 0x22) : (s ++ r).head? ≠ some c := by
    intro hhead
    obtain ⟨t, ht⟩ := List.head?_eq_some_iff.1 hhead
    exact h.ne_cons hc r t ht
  exact ⟨hne (by decide), hne (by decide), hne (by decide)⟩

theorem sectionEnd_scalar {s : Bytes} (h : ScalarText s) (r : Bytes) :
    sectionEnd (s ++ r) = (s ++ r).dropWhile tokenChar := by
  obtain ⟨hobj, harr, hstr⟩ := h.head_not_mem r
  rw [sectionEnd, if_neg hobj, if_neg harr, if_neg hstr]

theorem ScalarText.printable_iff {s : Bytes} (h : ScalarText s) :
    Printable s ↔ ∀ c ∈ s, tokenChar c = true := by
  obtain ⟨hobj, harr, hstr⟩ := h.head_not_mem []
  rw [List.append_nil] at hobj harr hstr
  rw [Printable, if_neg hobj, if_neg harr, if_neg hstr]
  constructor
  · intro hplus c hc
    exact (h.chars c hc).resolve_right fun heq => hplus (heq ▸ hc)
  · exact fun htoken hplus => absurd (htoken _ hplus) (by decide)

theorem ScalarText.notContinued_iff {s : Bytes} (h : ScalarText s) (rest : Bytes) :
    NotContinued s rest ↔ ∀ c ∈ rest.head?, tokenChar c = false := by
  obtain ⟨hobj, harr, hstr⟩ := h.head_not_mem []
  rw [List.append_nil] at hobj harr hstr
  simp [NotContinued, hobj, harr, hstr]

/-- **Where the command takes a value to end**: at its end, if the text can be shown whole. -/
theorem sectionEnd_value_iff (hprint : ∀ d, FormatG (printG d).bytes) {v : List (JsonCall δ)}
    (hv : ValueCalls v) {rest : Bytes} (hrest : rest ≠ []) :
    sectionEnd (callText printG false v ++ rest) = rest ↔
      NotContinued (callText printG false v) rest ∧ Printable (callText printG false v) := by
  rcases hv.text_cases hprint with ⟨vs, -, htext⟩ | ⟨ms, -, htext⟩ | ⟨s, htext⟩ | hscalar
  · rw [htext, and_iff_right (.inl (by simp))]
    exact skipBrackets_tail_iff (by decide) hrest
  · rw [htext, and_iff_right (.inl (by simp))]
    exact skipBrackets_tail_iff (by decide) hrest
  · rw [htext, and_iff_right (.inl (by simp))]
    refine iff_of_true ?_ trivial
    show (skipString (escaped s ++ [0x22] ++ rest)).tail = rest
    rw [List.append_assoc, List.singleton_append, skipString_escaped, List.tail_cons]
  · rw [sectionEnd_scalar hscalar, dropWhile_append_eq_iff, hscalar.notContinued_iff,
      hscalar.printable_iff, and_comm]

/-- A number that the command does not show whole does not show as another one: what it shows of
it ends with `e`. -/
theorem scalar_shown {s s' r r' : Bytes} (hs : ScalarText s) (hs' : ScalarText s')
    (hr' : EndOfValue r')
    (htext : s' ++ r' = s ++ r) (hend : sectionEnd (s ++ r) = r) : s' = s := by
  rw [sectionEnd_scalar hs, dropWhile_append_eq_iff] at hend
  have htake : (s' ++ r').takeWhile tokenChar = s := by
    rw [htext]
    exact Json.takeWhile_of_all hend.1 hend.2
  by_cases hplus : (0x2b : UInt8) ∈ s'
  · obtain ⟨u, w, rfl, hu⟩ := List.eq_append_cons_of_mem hplus
    have htoken : ∀ c ∈ u, tokenChar c = true := fun c hc =>
      (hs'.chars c (List.mem_append_left _ hc)).resolve_right fun heq => hu (heq ▸ hc)
    have hfirst : (u ++ 0x2b :: (w ++ r')).takeWhile tokenChar = u :=
      Json.takeWhile_of_all htoken (by simp [tokenChar, isalnum])
    rw [List.append_assoc, List.cons_append, hfirst] at htake
    rw [← htake] at hs
    exact absurd (hs'.beforePlus u w rfl hu) hs.not_beforePlus
  · have htoken : ∀ c ∈ s', tokenChar c = true := fun c hc =>
      (hs'.chars c hc).resolve_right fun heq => hplus (heq ▸ hc)
    rw [Json.takeWhile_of_all htoken hr'.not_token] at htake
    exact htake

/-- What stands behind the colon shows as that value when it is the value, and can be shown. -/
theorem shown_iff (hprint : ∀ d, FormatG (printG d).bytes) {v v' : List (JsonCall δ)}
    (hv : ValueCalls v) (hv' : ValueCalls v') {r' : Bytes} (hr' : EndOfValue r') :
    (∃ rest, callText printG false v' ++ r' = callText printG false v ++ rest ∧
        sectionEnd (callText printG false v ++ rest) = rest) ↔
      callText printG false v' = callText printG false v ∧ Printable (callText printG false v) := by
  constructor
  · rintro ⟨rest, htext, hend⟩
    have hsame : callText printG false v' = callText printG false v := by
      by_cases hscalar : ScalarText (callText printG false v)
      · rcases hv'.text_cases hprint with ⟨vs, -, hv'⟩ | ⟨ms, -, hv'⟩ | ⟨s, hv'⟩ | hv'
        · rw [hv'] at htext
          exact absurd htext.symm (hscalar.ne_cons (by decide) _ _)
        · rw [hv'] at htext
          exact absurd htext.symm (hscalar.ne_cons (by decide) _ _)
        · rw [hv'] at htext
          exact absurd htext.symm (hscalar.ne_cons (by decide) _ _)
        · exact scalar_shown hscalar hv' hr' htext hend
      · exact (value_unique hprint hv hv' (fun h => absurd h hscalar) htext.symm).symm
    rw [hsame] at htext
    obtain rfl := List.append_cancel_left htext
    exact ⟨hsame, ((sectionEnd_value_iff hprint hv hr'.ne_nil).1 hend).2⟩
  · rintro ⟨hsame, hprintable⟩
    refine ⟨r', by rw [hsame], (sectionEnd_value_iff hprint hv hr'.ne_nil).2 ⟨?_, hprintable⟩⟩
    exact .inr hr'.not_token

/-! ## Where the value is taken to begin -/

section

variable {k : CStr} {front back v : List (JsonCall δ)}

/-- The value is not behind the first one that has the key. -/
theorem valueStart_suffix (hprint : ∀ d, FormatG (printG d).bytes) (hk : identKey k = true)
    (hv : ValueCalls v) {start : Bytes}
    (h : valueStart (callText printG false (front ++ .key k :: (v ++ back))) k = some start) :
    callText printG false v ++ callText printG true back <:+ start := by
  set rest := callText printG false v ++ callText printG true back with hrest
  have hdoc : keyPattern k ++ rest <:+ callText printG false (front ++ .key k :: (v ++ back)) := by
    rw [callText_append, callText_field _ hk rfl, hrest, JsonCall.valueText, List.nil_append]
    show _ <:+ _ ++ (_ ++ (_ ++ callText printG false (v ++ back)))
    rw [hv.callText_append]
    exact (List.suffix_append _ _).trans (List.suffix_append _ _)
  obtain ⟨pos, hpos, hstart⟩ := Option.bind_eq_some_iff.1 h
  obtain ⟨colon, hcolon, rfl⟩ := Option.map_eq_some_iff.1 hstart
  have hfirst : 0x3a :: rest <:+ colon := by
    refine strchr_suffix hcolon ?_
    have hkey := strstr_suffix hpos hdoc ((List.take_prefix _ _).trans (List.prefix_append _ _))
    refine List.IsSuffix.trans ⟨0x22 :: (k.bytes ++ [0x22]), ?_⟩ hkey
    simp [keyPattern]
  have htail : rest <:+ colon.tail := by
    obtain ⟨w, rfl⟩ := hfirst
    cases w with
    | nil => exact List.suffix_refl _
    | cons c w => exact (List.suffix_cons 0x3a rest).trans (List.suffix_append w _)
  obtain ⟨c, s, hcs, hc⟩ := hv.head hprint
  rw [hrest, hcs, List.cons_append] at htail ⊢
  exact dropWhile_suffix_of_head (valueHead_cases hc).1 htail

/-- A pattern that is not cut leads to the value of the first key that the search finds. -/
theorem valueStart_found (hprint : ∀ d, FormatG (printG d).bytes) (hk : identKey k = true)
    (hlen : k.bytes.length ≤ 124) {k' : CStr} (hown : OwnKeys front) (hfront : FindsNone k front)
    (hk' : Finds k k') (hv : ValueCalls v) :
    valueStart (callText printG false (front ++ .key k' :: (v ++ back))) k =
      some (callText printG false v ++ callText printG true back) := by
  have hquote (d : δ) : (0x22 : UInt8) ∉ (printG d).bytes := fun hmem => by
    rcases (hprint d).chars.2 _ hmem with h | h <;> exact absurd h (by decide)
  obtain ⟨c, s, hcs, hc⟩ := hv.head hprint
  rw [valueStart, keyPattern_take hlen, strstr_found hquote hk hown hfront hk', Option.bind_some,
    strchr_keyPattern hk, Option.map_some, List.tail_cons, hv.callText_append,
    if_neg (by decide), List.nil_append, hcs, List.cons_append, List.dropWhile_cons,
    (valueHead_cases hc).1]
  rfl

end

/-! ## The documents -/

section

variable {k : CStr} {cs front back v : List (JsonCall δ)}

theorem exists_found (h : .key k ∈ cs) (hown : OwnKeys cs) :
    ∃ front k' rest, cs = front ++ .key k' :: rest ∧ FindsNone k front ∧ Finds k k' := by
  induction cs with
  | nil => cases h
  | cons c cs ih =>
    rw [OwnKeys, List.forall_mem_cons] at hown
    by_cases hc : ∃ k' ∈ c.key?, Finds k k'
    · obtain ⟨k', hk', hfinds⟩ := hc
      rw [hown.1 k' hk']
      exact ⟨[], k', cs, rfl, by simp [FindsNone], hfinds⟩
    · have hmem : .key k ∈ cs := by
        refine (List.mem_cons.1 h).resolve_left fun heq => hc ?_
        rw [← heq]
        exact ⟨k, rfl, .inl rfl⟩
      obtain ⟨front, k', rest, rfl, hnone, hfinds⟩ := ih hmem hown.2
      refine ⟨c :: front, k', rest, rfl, ?_, hfinds⟩
      rw [FindsNone, List.forall_mem_cons]
      exact ⟨fun k' hk' hfinds => hc ⟨k', hk', hfinds⟩, hnone⟩

/-- The text of the value of the first key that the search for `k` finds. -/
def FoundText (printG : δ → CStr) (k : CStr) (cs : List (JsonCall δ)) (value : Bytes) : Prop :=
  ∃ front k' v back, cs = front ++ .key k' :: (v ++ back) ∧ FindsNone k front ∧ Finds k k' ∧
    ValueCalls v ∧ callText printG false v = value

/-- More comes behind each value in a document. -/
theorem back_ne_nil (hprint : ∀ d, FormatG (printG d).bytes) (hdoc : ValueCalls cs)
    (hsplit : cs = front ++ .key k :: (v ++ back)) (hv : ValueCalls v) : back ≠ [] := by
  rintro rfl
  rw [List.append_nil] at hsplit
  obtain ⟨v', back', rfl, hv', hne⟩ := hdoc.keyedValues front k v hsplit
  -- one value would begin the other
  have hcomma (s : Bytes) : EndOfValue (0x2c :: s) := ⟨0x2c, rfl, .inl rfl⟩
  have htext : callText printG false v' ++ (callText printG true back' ++ [0x2c]) =
      callText printG false (v' ++ back') ++ [0x2c] := by
    rw [hv'.callText_append, if_neg (by decide), List.nil_append, List.append_assoc]
  have hstops : EndOfValue (callText printG true back' ++ [0x2c]) := by
    obtain ⟨c, hc, hstop⟩ := endOfValue_callText printG hne
    exact ⟨c, by rw [List.head?_append, hc]; rfl, hstop⟩
  have hsame := value_unique hprint hv' hv (fun _ => ⟨hstops, hcomma []⟩) htext
  rw [hsame, List.append_cancel_left_eq] at htext
  exact callText_ne_nil printG hne (List.append_cancel_right htext)

theorem shown_found (hprint : ∀ d, FormatG (printG d).bytes) (hdoc : ValueCalls cs)
    (hown : OwnKeys cs) (hk : identKey k = true) (hlen : k.bytes.length ≤ 124) (hmem : .key k ∈ cs)
    (hv : ValueCalls v) :
    printJsonSection (callText printG false cs) k =
        sectionHeading k ++ callText printG false v ++ [0x0a] ↔
      FoundText printG k cs (callText printG false v) ∧ Printable (callText printG false v) := by
  have hstart {front v' back : List (JsonCall δ)} {k' : CStr}
      (hsplit : cs = front ++ .key k' :: (v' ++ back)) (hfront : FindsNone k front)
      (hk' : Finds k k') (hv' : ValueCalls v') :
      valueStart (callText printG false cs) k =
        some (callText printG false v' ++ callText printG true back) := by
    have hownfront : OwnKeys front := fun c hc =>
      hown c (by rw [hsplit]; exact List.mem_append_left _ hc)
    rw [hsplit]
    exact valueStart_found hprint hk hlen hownfront hfront hk' hv'
  rw [printJsonSection_eq_iff]
  constructor
  · intro h
    obtain ⟨front, k', rest, hsplit, hfront, hk'⟩ := exists_found hmem hown
    obtain ⟨v', back, rfl, hv', hne⟩ := hdoc.keyedValues front k' rest hsplit
    simp only [hstart hsplit hfront hk' hv', Option.some_inj] at h
    obtain ⟨hsame, hprintable⟩ := (shown_iff hprint hv hv' (endOfValue_callText printG hne)).1 h
    exact ⟨⟨front, k', v', back, hsplit, hfront, hk', hv', hsame⟩, hprintable⟩
  · rintro ⟨⟨front, k', v', back, hsplit, hfront, hk', hv', hsame⟩, hprintable⟩
    have hne := back_ne_nil hprint hdoc hsplit hv'
    simp only [hstart hsplit hfront hk' hv', Option.some_inj]
    exact (shown_iff hprint hv hv' (endOfValue_callText printG hne)).2 ⟨hsame, hprintable⟩

theorem shown_long (hprint : ∀ d, FormatG (printG d).bytes) (hdoc : ValueCalls cs)
    (hk : identKey k = true) (hsplit : cs = front ++ .key k :: (v ++ back)) (hv : ValueCalls v) :
    printJsonSection (callText printG false cs) k =
        sectionHeading k ++ callText printG false v ++ [0x0a] ↔
      (∃ rest, valueStart (callText printG false cs) k = some (callText printG false v ++ rest) ∧
          NotContinued (callText printG false v) rest) ∧
        Printable (callText printG false v) := by
  have hrest {rest : Bytes}
      (h : valueStart (callText printG false cs) k = some (callText printG false v ++ rest)) :
      rest ≠ [] := by
    rintro rfl
    rw [hsplit] at h
    have hle := (valueStart_suffix hprint hk hv h).length_le
    have hpos := List.length_pos_iff.2 (callText_ne_nil printG
      (back_ne_nil hprint hdoc hsplit hv))
    rw [List.length_append, List.append_nil] at hle
    omega
  rw [printJsonSection_eq_iff]
  constructor
  · rintro ⟨rest, hstart, hend⟩
    obtain ⟨hnot, hprintable⟩ := (sectionEnd_value_iff hprint hv (hrest hstart)).1 hend
    exact ⟨⟨rest, hstart, hnot⟩, hprintable⟩
  · rintro ⟨⟨rest, hstart, hnot⟩, hprintable⟩
    exact ⟨rest, hstart, (sectionEnd_value_iff hprint hv (hrest hstart)).2 ⟨hnot, hprintable⟩⟩

end

end

/-- The snapshot of any services is a document of that kind. -/
theorem documentCalls_value (qsort : Qsort) (now : Int64) (ss : List ServiceState) :
    ValueCalls ((documentCalls qsort now ss).flatMap JsonCall.expand) := by
  have hmembers : Tree.EmitsFields (ss.flatMap fun st => .key st.name :: st.snapshot qsort) := by
    induction ss with
    | nil => exact ⟨[], rfl⟩
    | cons st ss ih =>
      have hname : plainKey st.name = true := by cases st <;> rfl
      exact (Tree.EmitsFields.member hname (st.snapshot_object qsort).value).append ih
  have hservices : Tree.EmitsObject (objectCalls [ss.flatMap fun st =>
      .key st.name :: st.snapshot qsort]) := Tree.emitsObject hmembers
  have htimestamp : Tree.EmitsFields ([.kvInt (.lit "timestamp") now] : List (JsonCall ℚ)) :=
    Tree.emitsFields_singleton rfl
  have hdocument : Tree.EmitsObject (documentCalls qsort now ss) :=
    Tree.emitsObject ⟨htimestamp, .member rfl hservices.value⟩
  obtain ⟨ms, hms⟩ := hdocument
  rw [hms]
  exact Tree.calls_value _

/-- **When a section is shown as it is**: for any document that the builder has written and any
identifier among its keys, the value of the key is what is shown, with a newline, exactly when the
first key that the search finds has a value of that text, and the text can be shown whole. With a
key of more than 124 bytes the pattern is cut, and the condition is on the place where its first
127 bytes are. -/
theorem print_json_section_iff {δ : Type} {printG : δ → CStr}
    (hprint : ∀ d, FormatG (printG d).bytes) {mem : Bytes} (hmem : 1 ≤ mem.length)
    {cs front v back : List (JsonCall δ)} {k : CStr}
    (hroom : jsonError (builderAfter printG mem cs) = false)
    (hdoc : ValueCalls (cs.flatMap JsonCall.expand)) (hk : identKey k = true)
    (hsplit : cs.flatMap JsonCall.expand = front ++ .key k :: (v ++ back)) (hv : ValueCalls v) :
    let doc := (builderAfter printG mem cs).text
    let value := callText printG false v
    (k.bytes.length ≤ 124 →
      (printJsonSection doc k = sectionHeading k ++ value ++ [0x0a] ↔
        FoundText printG k (cs.flatMap JsonCall.expand) value ∧ Printable value)) ∧
    (124 < k.bytes.length →
      (printJsonSection doc k = sectionHeading k ++ value ++ [0x0a] ↔
        (∃ rest, valueStart doc k = some (value ++ rest) ∧ NotContinued value rest) ∧
          Printable value)) := by
  intro doc value
  have htext : doc = callText printG false (cs.flatMap JsonCall.expand) := by
    rw [callText, Tree.callTokens_expand]
    exact builderAfter_text printG hmem hroom
  have hkey : .key k ∈ cs.flatMap JsonCall.expand := by
    rw [hsplit]
    exact List.mem_append_right _ List.mem_cons_self
  rw [htext]
  exact ⟨fun hlen => shown_found hprint hdoc (ownKeys_expand cs) hk hlen hkey hv,
    fun _ => shown_long hprint hdoc hk hsplit hv⟩

/-- `{"a":{},"b":1}`. -/
def emptyFirst : List (JsonCall Empty) :=
  [.objectStart, .key (.lit "a"), .objectStart, .objectEnd, .kvInt (.lit "b") 1, .objectEnd]

theorem emptyFirst_value : ValueCalls (emptyFirst.flatMap JsonCall.expand) :=
  .object [(.lit "a", [.objectStart, .objectEnd]), (.lit "b", [.int 1])] (by
    rw [List.forall_mem_cons, List.forall_mem_cons]
    exact ⟨.object [] (by simp), .int 1, by simp⟩)

theorem print_json_section_iff_number :
    (1 ≤ 124 →
      (printJsonSection (builderAfter noDouble room emptyFirst).text (.lit "b") =
          sectionHeading (.lit "b") ++ callText noDouble false [.int 1] ++ [0x0a] ↔
        FoundText noDouble (.lit "b") (emptyFirst.flatMap JsonCall.expand)
            (callText noDouble false [.int 1]) ∧
          Printable (callText noDouble false [.int 1]))) ∧
    (124 < 1 →
      (printJsonSection (builderAfter noDouble room emptyFirst).text (.lit "b") =
          sectionHeading (.lit "b") ++ callText noDouble false [.int 1] ++ [0x0a] ↔
        (∃ rest, valueStart (builderAfter noDouble room emptyFirst).text (.lit "b") =
              some (callText noDouble false [.int 1] ++ rest) ∧
            NotContinued (callText noDouble false [.int 1]) rest) ∧
          Printable (callText noDouble false [.int 1]))) :=
  @print_json_section_iff Empty noDouble (fun d => d.elim) room (by decide) emptyFirst
    [.objectStart, .key (.lit "a"), .objectStart, .objectEnd] [.int 1] [.objectEnd] (.lit "b")
    (by decide) emptyFirst_value (by decide) rfl (.int 1)

/-- The comma behind the empty object is shown with it. -/
theorem section_with_comma :
    ¬ ∀ (mem : Bytes) (cs front v back : List (JsonCall Empty)) (k : CStr), 1 ≤ mem.length →
      jsonError (builderAfter noDouble mem cs) = false →
      ValueCalls (cs.flatMap JsonCall.expand) → identKey k = true →
      cs.flatMap JsonCall.expand = front ++ .key k :: (v ++ back) →
      (∀ c ∈ front, c.key? ≠ some k) → ValueCalls v →
      printJsonSection (builderAfter noDouble mem cs).text k =
        sectionHeading k ++ callText noDouble false v ++ [0x0a] := by
  intro hall
  have hempty : ValueCalls ([.objectStart, .objectEnd] : List (JsonCall Empty)) :=
    .object [] (by simp)
  have hshown := hall room emptyFirst [.objectStart] [.objectStart, .objectEnd]
    [.key (.lit "b"), .int 1, .objectEnd] (.lit "a") (by decide) (by decide) emptyFirst_value
    (by decide) rfl (by simp [JsonCall.key?]) hempty
  revert hshown
  decide +kernel

end Qmem
