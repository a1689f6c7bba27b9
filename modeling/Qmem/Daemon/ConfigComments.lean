import Qmem.Daemon.ConfigFile

/-!
# Comments in a configuration file

A comment line that is longer than the array is read in pieces, and only the piece with its mark is
taken for a comment. The others are lines like any others: what they say counts.

Main result: `comment_ignored_iff`.
-/

namespace Qmem

open CLib

/-- A line whose first character that is not blank is `#` or `;`. -/
structure CommentLine where
  blanks : Bytes
  mark : UInt8
  body : Bytes
  blanks_blank : ∀ c ∈ blanks, isspace c = true ∧ c ≠ 0x0a
  mark_comment : mark = 0x23 ∨ mark = 0x3b
  body_line : 0x0a ∉ body

def CommentLine.text (comment : CommentLine) : Bytes :=
  comment.blanks ++ comment.mark :: comment.body ++ [0x0a]

/-- A place between two lines of a file. -/
structure Between (before after : Bytes) : Prop where
  ended : before.getLast? = some 0x0a
  more : after ≠ []

/-- The line is no header, and assigns nothing that `config_load` knows, in whatever section it
stands. -/
def QuietLine (line : Bytes) : Prop :=
  iniHeader line = none ∧ ∀ a ∈ iniAssignment line, ∀ o ∈ configSettings,
    o.key = a.1 → o.convert a.2 = none

/-- No piece of it says anything. -/
def CommentLine.Quiet (comment : CommentLine) : Prop :=
  ∀ piece ∈ fgetsAll 512 comment.text, QuietLine piece

/-! ## Lines that say nothing -/

theorem update_of_none {o : ConfigSetting} (ho : o ∈ configSettings) {val : CStr}
    (h : o.convert val = none) (cfg : Config) : o.update cfg val = cfg := by
  have hlevel : levelSetting.convert val = none → levelSetting.update cfg val = cfg := by
    intro hnone
    have hname : levelNamed val = none := Option.map_eq_none_iff.1 hnone
    simp only [levelSetting, hname, Option.getD_none]
  revert o
  simp only [configSettings, configSections, List.flatMap_cons, List.flatMap_nil, List.cons_append,
    List.nil_append, List.forall_mem_cons, intSetting, longSetting, boolSetting, textSetting,
    reduceCtorEq, false_imp_iff, List.not_mem_nil, implies_true, and_true, true_and]
  exact hlevel

theorem configLine_quiet {line : Bytes} (h : QuietLine line) (s : Loading) :
    configLine s line = s := by
  obtain ⟨hheader, hassign⟩ := h
  rcases configLine_cases s line with ⟨-, -, hline⟩ | ⟨name, hname, -, -⟩ |
    ⟨key, val, -, hkey, hline⟩
  · exact hline
  · rw [hheader] at hname
    exact nomatch hname
  · have hsame : configSet s.cfg key val s.sectionName.text = s.cfg := by
      rw [configSet_eq]
      cases hsection : configSections.find? fun t => s.sectionName.text = t.name with
      | none => rfl
      | some t =>
        rw [Option.elim_some]
        cases hsetting : t.settings.find? fun o => key = o.key with
        | none => rfl
        | some o =>
          have ho : o ∈ configSettings := List.mem_flatMap.2
            ⟨t, List.mem_of_find?_eq_some hsection, List.mem_of_find?_eq_some hsetting⟩
          have hkey' : key = o.key := by simpa using List.find?_some hsetting
          exact update_of_none ho (hassign _ hkey o ho hkey'.symm) s.cfg
    rw [hline, hsame]

theorem foldl_quiet {lines : List Bytes} (h : ∀ line ∈ lines, QuietLine line) (s : Loading) :
    lines.foldl configLine s = s := by
  induction lines with
  | nil => rfl
  | cons line lines ih =>
    obtain ⟨hline, hrest⟩ := List.forall_mem_cons.1 h
    rw [List.foldl_cons, configLine_quiet hline, ih hrest]

theorem CommentLine.text_ended (comment : CommentLine) :
    comment.text.getLast? = some 0x0a := List.getLast?_concat

/-- The pieces of the file. -/
theorem fgetsAll_inserted {before after : Bytes} (h : Between before after)
    (comment : CommentLine) :
    fgetsAll 512 (before ++ comment.text ++ after) =
      fgetsAll 512 before ++ fgetsAll 512 comment.text ++ fgetsAll 512 after := by
  rw [List.append_assoc, fgetsAll_append h.ended, fgetsAll_append comment.text_ended,
    List.append_assoc]

/-- A comment of which no piece says anything is ignored. -/
theorem CommentLine.Quiet.ignored {comment : CommentLine} (h : comment.Quiet) (cfg : Config)
    {before after : Bytes} (hbetween : Between before after) :
    configLoad cfg (some (before ++ comment.text ++ after)) =
      configLoad cfg (some (before ++ after)) := by
  rw [configLoad, configLoad, fgetsAll_inserted hbetween, fgetsAll_append hbetween.ended,
    List.foldl_append, List.foldl_append, List.foldl_append, foldl_quiet h]

/-- A piece that has the mark is quiet. -/
theorem quiet_of_mark {blanks : Bytes} (hblanks : ∀ c ∈ blanks, isspace c = true) {mark : UInt8}
    (hmark : mark = 0x23 ∨ mark = 0x3b) (rest : Bytes) : QuietLine (blanks ++ mark :: rest) := by
  have hnul : ∀ c ∈ blanks, decide (c ≠ 0) = true := fun c hc => by
    refine decide_eq_true fun hzero => ?_
    rw [hzero] at hc
    exact absurd (hblanks 0 hc) (by decide)
  have hmark' : mark ≠ 0 ∧ isspace mark = false := by
    obtain rfl | rfl := hmark
    · decide
    · decide
  have hstring : (cstr (blanks ++ mark :: rest ++ [0])).bytes =
      blanks ++ mark :: (rest ++ [0]).takeWhile (· ≠ 0) := by
    show (blanks ++ mark :: rest ++ [0]).takeWhile _ = _
    rw [List.append_assoc, List.cons_append, List.takeWhile_append_of_pos hnul,
      List.takeWhile_cons_of_pos (by simpa using hmark'.1)]
  have hhead : (lineText (blanks ++ mark :: rest)).bytes.head? = some mark := by
    rw [lineText, ← trim_eq]
    show (trimBytes _).head? = _
    rw [trimBytes, hstring, List.dropWhile_append_of_pos hblanks,
      List.dropWhile_cons_of_neg (by simp [hmark'.2])]
    rfl
  have hnone : some mark ≠ some 0x5b ∧ some mark ∈ [some 0x23, some 0x3b, some 0x5b] := by
    obtain rfl | rfl := hmark
    · decide
    · decide
  refine ⟨?_, fun a ha => ?_⟩
  · rw [iniHeader, hhead]
    exact if_neg fun h => hnone.1 h.1
  · rw [iniAssignment, hhead, if_neg fun h => h.1 hnone.2] at ha
    exact absurd ha (Option.not_mem_none a)

/-- A comment that fits into the array is one piece. -/
theorem CommentLine.quiet_of_fits {comment : CommentLine} (h : comment.text.length ≤ 511) :
    comment.Quiet := by
  intro piece hpiece
  have hnl : 0x0a ∉ comment.blanks ++ comment.mark :: comment.body := by
    rw [List.mem_append, List.mem_cons]
    rintro (hmem | hmem | hmem)
    · exact (comment.blanks_blank _ hmem).2 rfl
    · exact absurd comment.mark_comment (by rw [← hmem]; decide)
    · exact comment.body_line hmem
  rw [CommentLine.text, List.length_append, List.length_singleton] at h
  have honly := fgetsAll_line hnl (n := 512) (by omega) []
  rw [CommentLine.text, honly, show fgetsAll 512 [] = [] from rfl, List.mem_singleton] at hpiece
  rw [hpiece, List.append_assoc, List.cons_append]
  exact quiet_of_mark (fun c hc => (comment.blanks_blank c hc).1) comment.mark_comment _

/-! ## Lines in a section -/

/-- The section one is in behind these lines, which begin in that one. -/
def sectionFrom (name : CStr) (lines : List Bytes) : CStr := Assign.last iniHeader lines name

/-- The assignments in these lines. -/
def assignmentsFrom : CStr → List Bytes → List Assignment
  | _, [] => []
  | name, line :: lines =>
    ((iniAssignment line).map fun (key, val) => { sectionName := name, key, val }).toList ++
      assignmentsFrom ((iniHeader line).getD name) lines

/-- The value an option has behind these lines, if it has `before` in front of them. -/
def ConfigOption.valueFrom (o : ConfigOption) (name : CStr) (lines : List Bytes)
    (before : OptionValue) : OptionValue :=
  Assign.last o.assigned (assignmentsFrom name lines) before

theorem assignments_concat (lines more : List Bytes) :
    assignments (lines ++ more) =
      assignments lines ++ assignmentsFrom (sectionAfter lines) more := by
  induction more generalizing lines with
  | nil => rw [assignmentsFrom, List.append_nil, List.append_nil]
  | cons line more ih =>
    rw [List.append_cons, ih, assignments_append, sectionAfter_append, assignmentsFrom,
      List.append_assoc]
    rfl

theorem value_concat (o : ConfigOption) (lines more : List Bytes) (cfg : Config) :
    o.value (lines ++ more) cfg = o.valueFrom (sectionAfter lines) more (o.value lines cfg) := by
  rw [ConfigOption.value, assignments_concat, Assign.last_append]
  rfl

/-- An empty line assigns nothing. -/
theorem valueFrom_blank (o : ConfigOption) (name : CStr) (before : OptionValue) :
    o.valueFrom name (fgetsAll 512 [0x0a]) before = before := by
  have hone : fgetsAll 512 [0x0a] = [[0x0a]] := by decide +kernel
  have hassign : iniAssignment [0x0a] = none := by decide +kernel
  rw [hone, ConfigOption.valueFrom, assignmentsFrom, hassign]
  rfl

theorem sectionAfter_concat (lines more : List Bytes) :
    sectionAfter (lines ++ more) = sectionFrom (sectionAfter lines) more :=
  Assign.last_append lines more _

/-- Without a header all of them stand in one section. -/
theorem mem_assignmentsFrom {lines : List Bytes} (h : ∀ line ∈ lines, iniHeader line = none)
    (name : CStr) {line : Bytes} (hline : line ∈ lines) {key val : CStr}
    (hassign : iniAssignment line = some (key, val)) :
    { sectionName := name, key, val } ∈ assignmentsFrom name lines := by
  induction lines with
  | nil => exact nomatch hline
  | cons line' lines ih =>
    obtain ⟨hheader, hrest⟩ := List.forall_mem_cons.1 h
    rw [assignmentsFrom, hheader]
    obtain rfl | hline := List.mem_cons.1 hline
    · rw [hassign]
      exact List.mem_append_left _ List.mem_cons_self
    · exact List.mem_append_right _ (ih hrest hline)

/-! ## Files that tell -/

def headerText (o : ConfigOption) : Bytes := 0x5b :: o.sectionName.bytes ++ [0x5d, 0x0a]

def assignText (o : ConfigOption) (val : CStr) : Bytes :=
  o.key.bytes ++ 0x3d :: val.bytes ++ [0x0a]

theorem headerText_ended (o : ConfigOption) : (headerText o).getLast? = some 0x0a := by
  show (0x5b :: o.sectionName.bytes ++ ([0x5d] ++ [0x0a])).getLast? = _
  rw [← List.append_assoc, List.getLast?_concat]

theorem assignText_ended (o : ConfigOption) (val : CStr) :
    (assignText o val).getLast? = some 0x0a := List.getLast?_concat

/-- Every option takes two values from these. -/
def sampleTexts : List CStr := [.lit "0", .lit "1", .lit "debug", .lit "info"]

theorem sample_values : ∀ o ∈ configSettings, ∃ val ∈ sampleTexts, ∃ val' ∈ sampleTexts,
    (o.convert val).isSome ∧ (o.convert val').isSome ∧ o.convert val ≠ o.convert val' := by
  decide +kernel

theorem sample_lines : ∀ o ∈ configSettings.map ConfigSetting.toConfigOption,
    fgetsAll 512 (headerText o) = [headerText o] ∧
      iniHeader (headerText o) = some o.sectionName ∧ iniAssignment (headerText o) = none ∧
      ∀ val ∈ sampleTexts, fgetsAll 512 (assignText o val) = [assignText o val] ∧
        iniHeader (assignText o val) = none ∧
        iniAssignment (assignText o val) = some (o.key, val) := by
  decide +kernel

section

variable {o : ConfigSetting} (ho : o ∈ configSettings)

include ho

/-- Two texts that the option takes for different values. -/
theorem samples : ∃ val ∈ sampleTexts, ∃ val' ∈ sampleTexts, ∃ x x',
    o.convert val = some x ∧ o.convert val' = some x' ∧ x ≠ x' := by
  obtain ⟨val, hval, val', hval', hsome, hsome', hne⟩ := sample_values o ho
  obtain ⟨x, hx⟩ := Option.isSome_iff_exists.1 hsome
  obtain ⟨x', hx'⟩ := Option.isSome_iff_exists.1 hsome'
  exact ⟨val, hval, val', hval', x, x', hx, hx', fun heq => hne (by rw [hx, hx', heq])⟩

theorem fgetsAll_header : fgetsAll 512 (headerText o.toConfigOption) =
    [headerText o.toConfigOption] := (sample_lines _ (List.mem_map_of_mem ho)).1

theorem sectionAfter_header : sectionAfter [headerText o.toConfigOption] = o.sectionName := by
  obtain ⟨-, hheader, -, -⟩ := sample_lines _ (List.mem_map_of_mem ho)
  show sectionAfter ([] ++ [headerText o.toConfigOption]) = _
  rw [sectionAfter_append, hheader]
  rfl

theorem value_header (cfg : Config) :
    o.value [headerText o.toConfigOption] cfg = o.get cfg := by
  obtain ⟨-, -, hassign, -⟩ := sample_lines _ (List.mem_map_of_mem ho)
  have hnone : assignments ([] ++ [headerText o.toConfigOption]) = [] := by
    rw [assignments_append, assignmentAfter, hassign]
    rfl
  rw [ConfigOption.value, ← List.nil_append [_], hnone]
  rfl

variable {val : CStr} (hval : val ∈ sampleTexts)

include hval

theorem fgetsAll_assign : fgetsAll 512 (assignText o.toConfigOption val) =
    [assignText o.toConfigOption val] :=
  ((sample_lines _ (List.mem_map_of_mem ho)).2.2.2 val hval).1

theorem header_assign : iniHeader (assignText o.toConfigOption val) = none :=
  ((sample_lines _ (List.mem_map_of_mem ho)).2.2.2 val hval).2.1

/-- The assignment counts in its own section. -/
theorem valueFrom_assign (name : CStr) (before : OptionValue) :
    o.valueFrom name [assignText o.toConfigOption val] before =
      (if name = o.sectionName then o.convert val else none).getD before := by
  have hassign := ((sample_lines _ (List.mem_map_of_mem ho)).2.2.2 val hval).2.2
  have hone : assignmentsFrom name [assignText o.toConfigOption val] =
      [{ sectionName := name, key := o.key, val }] := by
    rw [assignmentsFrom, hassign]
    rfl
  rw [ConfigOption.valueFrom, hone, Assign.last_cons, Assign.last_nil, ConfigOption.assigned]
  simp

end

/-- What a comment would have to leave alone. -/
def CommentLine.Ignored (comment : CommentLine) (cfg : Config) : Prop :=
  ∀ before after, Between before after →
    configLoad cfg (some (before ++ comment.text ++ after)) =
      configLoad cfg (some (before ++ after))

section

variable {comment : CommentLine} {cfg : Config} (h : comment.Ignored cfg)

include h

/-- Seen from the pieces. -/
theorem CommentLine.Ignored.value {o : ConfigSetting} (ho : o ∈ configSettings)
    {before after : Bytes} (hbetween : Between before after) :
    o.valueFrom (sectionFrom (sectionAfter (fgetsAll 512 before)) (fgetsAll 512 comment.text))
        (fgetsAll 512 after)
        (o.valueFrom (sectionAfter (fgetsAll 512 before)) (fgetsAll 512 comment.text)
          (o.value (fgetsAll 512 before) cfg)) =
      o.valueFrom (sectionAfter (fgetsAll 512 before)) (fgetsAll 512 after)
        (o.value (fgetsAll 512 before) cfg) := by
  have hget := congrArg o.get (h before after hbetween)
  rw [configLoad_value cfg _ ho, configLoad_value cfg _ ho, fgetsAll_inserted hbetween,
    fgetsAll_append hbetween.ended, value_concat, value_concat, value_concat,
    sectionAfter_concat] at hget
  exact hget

/-- A piece that is a header would take the next assignment out of its section. -/
theorem CommentLine.Ignored.no_header {piece : Bytes}
    (hpiece : piece ∈ fgetsAll 512 comment.text) : iniHeader piece = none := by
  by_contra hheader
  obtain ⟨name, hname⟩ := Option.ne_none_iff_exists'.1 hheader
  -- whatever section the comment is in, it ends in the same
  have hsame (before before' : CStr) : sectionFrom before (fgetsAll 512 comment.text) =
      sectionFrom before' (fgetsAll 512 comment.text) :=
    Assign.last_of_assigned hpiece hname before before'
  obtain ⟨o, ho, hother⟩ : ∃ o ∈ configSettings,
      sectionFrom (.lit "") (fgetsAll 512 comment.text) ≠ o.sectionName := by
    have htwo : ∃ o ∈ configSettings, ∃ o' ∈ configSettings,
        o.sectionName ≠ o'.sectionName := by decide +kernel
    obtain ⟨o, ho, o', ho', hne⟩ := htwo
    by_cases heq : sectionFrom (.lit "") (fgetsAll 512 comment.text) = o.sectionName
    · exact ⟨o', ho', fun heq' => hne (heq.symm.trans heq')⟩
    · exact ⟨o, ho, heq⟩
  obtain ⟨val, hval, val', hval', x, x', hx, hx', hne⟩ := samples ho
  have hlost {v : CStr} (hv : v ∈ sampleTexts) {y : OptionValue} (hy : o.convert v = some y) :
      o.valueFrom o.sectionName (fgetsAll 512 comment.text) (o.get cfg) = y := by
    have hbetween : Between (headerText o.toConfigOption) (assignText o.toConfigOption v) :=
      ⟨headerText_ended _, by simp [assignText]⟩
    have hvalue := h.value ho hbetween
    rw [fgetsAll_header ho, fgetsAll_assign ho hv, sectionAfter_header ho, value_header ho,
      valueFrom_assign ho hv, valueFrom_assign ho hv, hsame o.sectionName (.lit ""),
      if_neg hother, if_pos rfl, hy] at hvalue
    exact hvalue
  exact hne ((hlost hval hx).symm.trans (hlost hval' hx'))

/-- A piece that is an assignment would count in the section of its option. -/
theorem CommentLine.Ignored.no_assignment {piece : Bytes}
    (hpiece : piece ∈ fgetsAll 512 comment.text) {a : CStr × CStr}
    (ha : iniAssignment piece = some a) {o : ConfigSetting} (ho : o ∈ configSettings)
    (hkey : o.key = a.1) : o.convert a.2 = none := by
  by_contra hconvert
  obtain ⟨y, hy⟩ := Option.ne_none_iff_exists'.1 hconvert
  have hmem := mem_assignmentsFrom (fun piece hpiece => h.no_header hpiece) o.sectionName hpiece ha
  have hassigned : o.assigned { sectionName := o.sectionName, key := a.1, val := a.2 } =
      some y := by
    rw [ConfigOption.assigned, if_pos ⟨rfl, hkey.symm⟩, hy]
  -- whatever the option is before, it is the same behind the comment
  have hsame (before before' : OptionValue) :
      o.valueFrom o.sectionName (fgetsAll 512 comment.text) before =
        o.valueFrom o.sectionName (fgetsAll 512 comment.text) before' :=
    Assign.last_of_assigned hmem hassigned before before'
  obtain ⟨val, hval, val', hval', x, x', hx, hx', hne⟩ := samples ho
  have hkept {v : CStr} (hv : v ∈ sampleTexts) {z : OptionValue} (hz : o.convert v = some z) :
      o.valueFrom o.sectionName (fgetsAll 512 comment.text) (o.get cfg) = z := by
    have hbetween : Between (headerText o.toConfigOption ++ assignText o.toConfigOption v)
        [0x0a] := ⟨by rw [List.getLast?_append, assignText_ended, Option.some_or],
          List.cons_ne_nil _ _⟩
    have hvalue := h.value ho hbetween
    have hsection : sectionAfter ([headerText o.toConfigOption] ++
        [assignText o.toConfigOption v]) = o.sectionName := by
      rw [sectionAfter_append, header_assign ho hv, Option.getD_none, sectionAfter_header ho]
    rw [valueFrom_blank, valueFrom_blank, fgetsAll_append (headerText_ended _),
      fgetsAll_header ho, fgetsAll_assign ho hv, hsection, value_concat, sectionAfter_header ho,
      valueFrom_assign ho hv, if_pos rfl, hz] at hvalue
    exact (hsame _ _).trans hvalue
  exact hne ((hkept hval hx).symm.trans (hkept hval' hx'))

end

/-- **When a comment line is ignored**, wherever it stands in whatever file: exactly when no piece
that is read of it says anything. -/
theorem comment_ignored_iff (comment : CommentLine) (cfg : Config) :
    (∀ before after, Between before after →
        configLoad cfg (some (before ++ comment.text ++ after)) =
          configLoad cfg (some (before ++ after))) ↔
      ∀ piece ∈ fgetsAll 512 comment.text, QuietLine piece := by
  constructor
  · intro h piece hpiece
    have hignored : comment.Ignored cfg := h
    exact ⟨hignored.no_header hpiece, fun a ha o ho hkey =>
      hignored.no_assignment hpiece ha ho hkey⟩
  · intro h before after hbetween
    exact CommentLine.Quiet.ignored h cfg hbetween

/-- A remark of 510 characters in front of an assignment. -/
def longComment : CommentLine where
  blanks := []
  mark := 0x23
  body := List.replicate 510 0x78 ++ (CStr.lit "interval = 5").bytes
  blanks_blank := List.forall_mem_nil _
  mark_comment := .inl rfl
  body_line := by decide +kernel

theorem comment_read : ¬∀ before after, Between before after →
    configLoad configInitDefaults (some (before ++ longComment.text ++ after)) =
      configLoad configInitDefaults (some (before ++ after)) := by
  intro h
  have hsame := congrArg Config.intervalSec
    (h (CStr.lit "[daemon]\n").bytes (CStr.lit "foreground = true\n").bytes
      ⟨by decide +kernel, by decide +kernel⟩)
  exact absurd hsame (by decide +kernel)

end Qmem
