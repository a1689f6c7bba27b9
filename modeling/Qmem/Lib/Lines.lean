import Qmem.Lib.CStr

/-!
# Going through a text line by line

The loop `while (*line) { …; line = strchr(line, '\n'); if (!line) break; line++; }` comes to the
start of each line that is not behind the end of the text.
-/

namespace CLib

/-- The places where a line starts in `s`; `start` says whether `s` itself is one. -/
def lineStartsFrom : Bool → Bytes → List Bytes
  | _, [] => []
  | start, c :: s =>
    if start then (c :: s) :: lineStartsFrom (c == 0x0a) s else lineStartsFrom (c == 0x0a) s

/-- What `line` points at in each turn of the loop. -/
def lineStarts (s : Bytes) : List Bytes := lineStartsFrom true s

theorem lineStartsFrom_skip {line : Bytes} (h : 0x0a ∉ line) (rest : Bytes) :
    lineStartsFrom false (line ++ 0x0a :: rest) = lineStarts rest := by
  induction line with
  | nil => rfl
  | cons c line ih =>
    rw [List.mem_cons, not_or] at h
    have hc : (c == 0x0a) = false := by simpa using Ne.symm h.1
    rw [List.cons_append, lineStartsFrom, hc]
    exact ih h.2

theorem lineStartsFrom_last {line : Bytes} (h : 0x0a ∉ line) : lineStartsFrom false line = [] := by
  induction line with
  | nil => rfl
  | cons c line ih =>
    rw [List.mem_cons, not_or] at h
    have hc : (c == 0x0a) = false := by simpa using Ne.symm h.1
    rw [lineStartsFrom, hc]
    exact ih h.2

/-- A line that ends. -/
theorem lineStarts_line {line : Bytes} (h : 0x0a ∉ line) (rest : Bytes) :
    lineStarts (line ++ 0x0a :: rest) = (line ++ 0x0a :: rest) :: lineStarts rest := by
  cases line with
  | nil => rfl
  | cons c line =>
    rw [List.mem_cons, not_or] at h
    have hc : (c == 0x0a) = false := by simpa using Ne.symm h.1
    rw [List.cons_append, lineStarts, lineStartsFrom, hc, lineStartsFrom_skip h.2]
    rfl

/-- A line without an end is the last one. -/
theorem lineStarts_last {line : Bytes} (h : 0x0a ∉ line) (hne : line ≠ []) :
    lineStarts line = [line] := by
  cases line with
  | nil => exact absurd rfl hne
  | cons c line =>
    rw [List.mem_cons, not_or] at h
    have hc : (c == 0x0a) = false := by simpa using Ne.symm h.1
    rw [lineStarts, lineStartsFrom, hc, lineStartsFrom_last h.2]
    rfl

theorem lineStartsFrom_length_le (start : Bool) (s : Bytes) :
    (lineStartsFrom start s).length ≤ s.length := by
  induction s generalizing start with
  | nil => exact Nat.le_refl 0
  | cons c s ih =>
    rw [lineStartsFrom]
    split
    · exact Nat.succ_le_succ (ih _)
    · exact Nat.le_succ_of_le (ih _)

theorem lineStarts_length_le (s : Bytes) : (lineStarts s).length ≤ s.length :=
  lineStartsFrom_length_le true s

theorem lineStartsFrom_take_le (start : Bool) (s : Bytes) (n : Nat) :
    (lineStartsFrom start (s.take n)).length ≤ (lineStartsFrom start s).length := by
  induction s generalizing start n with
  | nil => rw [List.take_nil]
  | cons c s ih =>
    cases n with
    | zero => exact Nat.zero_le _
    | succ n =>
      rw [List.take_succ_cons, lineStartsFrom, lineStartsFrom]
      split
      · exact Nat.succ_le_succ (ih _ n)
      · exact ih _ n

theorem lineStarts_take_le (s : Bytes) (n : Nat) :
    (lineStarts (s.take n)).length ≤ (lineStarts s).length := lineStartsFrom_take_le true s n

/-! ## What stands in a line -/

section

variable {needle : Bytes} (hneedle : 0x0a ∉ needle)
include hneedle

/-- What has no newline stands in one line. -/
theorem prefix_line_iff {line rest : Bytes} :
    needle <+: line ++ 0x0a :: rest ↔ needle <+: line := by
  induction line generalizing needle with
  | nil =>
    cases needle with
    | nil => simp
    | cons d needle =>
      rw [List.mem_cons, not_or] at hneedle
      simp [List.cons_prefix_cons, Ne.symm hneedle.1]
  | cons c line ih =>
    cases needle with
    | nil => simp
    | cons d needle =>
      rw [List.mem_cons, not_or] at hneedle
      rw [List.cons_append, List.cons_prefix_cons, List.cons_prefix_cons, ih hneedle.2]

theorem infix_line_iff (hne : needle ≠ []) {line rest : Bytes} :
    needle <:+: line ++ 0x0a :: rest ↔ needle <:+: line ∨ needle <:+: rest := by
  induction line with
  | nil =>
    have hhere : needle <+: [] ++ 0x0a :: rest ↔ needle <+: [] := prefix_line_iff hneedle
    have hnil : ¬ needle <+: 0x0a :: rest := fun h => hne (List.prefix_nil.1 (hhere.1 h))
    rw [List.nil_append, List.infix_cons_iff, List.infix_nil, or_iff_right hnil, or_iff_right hne]
  | cons c line ih =>
    have hhere : needle <+: c :: line ++ 0x0a :: rest ↔ needle <+: c :: line :=
      prefix_line_iff hneedle
    rw [List.cons_append] at hhere
    rw [List.cons_append, List.infix_cons_iff, hhere, ih, List.infix_cons_iff, or_assoc]

end

/-! ## Texts given by their lines -/

/-- These lines, each with a newline behind it, except perhaps the last. -/
def unlines (ended : Bool) : List Bytes → Bytes
  | [] => []
  | [line] => if ended then line ++ [0x0a] else line
  | line :: lines => line ++ 0x0a :: unlines ended lines

theorem unlines_cons (ended : Bool) (line : Bytes) {lines : List Bytes} (h : lines ≠ []) :
    unlines ended (line :: lines) = line ++ 0x0a :: unlines ended lines := by
  cases lines with
  | nil => exact absurd rfl h
  | cons l lines => rfl

theorem length_unlines_cons (line : Bytes) (lines : List Bytes) :
    (unlines true (line :: lines)).length = line.length + 1 + (unlines true lines).length := by
  cases lines with
  | nil => exact List.length_append
  | cons l lines =>
    rw [unlines_cons true line (List.cons_ne_nil l lines), List.length_append, List.length_cons]
    omega

/-- The lines of a text without NUL. If the last one has no newline, it is not empty. -/
structure TextLines where
  lines : List Bytes
  ended : Bool
  noNewline : ∀ line ∈ lines, 0x0a ∉ line
  nulFree : ∀ line ∈ lines, 0 ∉ line
  last : ended = false → ∀ line ∈ lines.getLast?, line ≠ []

def TextLines.text (t : TextLines) : Bytes := unlines t.ended t.lines

/-- The last line starts before the `n`-th byte. -/
def LastStartsWithin (n : Nat) (lines : List Bytes) : Prop :=
  lines ≠ [] → (unlines true lines.dropLast).length < n

instance (n : Nat) (lines : List Bytes) : Decidable (LastStartsWithin n lines) :=
  inferInstanceAs (Decidable (_ → _))

section

variable {ended : Bool} {lines : List Bytes}

theorem zero_not_mem_unlines (h : ∀ line ∈ lines, 0 ∉ line) : 0 ∉ unlines ended lines := by
  induction lines with
  | nil => exact List.not_mem_nil
  | cons line lines ih =>
    obtain ⟨hline, hrest⟩ := List.forall_mem_cons.1 h
    by_cases hlast : lines = []
    · rw [hlast, unlines]
      split
      · rw [List.mem_append, not_or]
        exact ⟨hline, by decide⟩
      · exact hline
    · rw [unlines_cons ended line hlast, List.mem_append, List.mem_cons, not_or, not_or]
      exact ⟨hline, by decide, ih hrest⟩

/-- The only line of a text, cut somewhere. -/
theorem lineStarts_take_single {line : Bytes} (hline : 0x0a ∉ line)
    (hlast : ended = false → line ≠ []) (n : Nat) :
    (lineStarts ((unlines ended [line]).take n)).length = 1 ↔ 0 < n := by
  rcases Nat.eq_zero_or_pos n with rfl | hn
  · simp [lineStarts, lineStartsFrom]
  · refine iff_of_true ?_ hn
    have hcut : 0x0a ∉ line.take n := fun hmem => hline (List.mem_of_mem_take hmem)
    rw [unlines]
    split
    · by_cases hfits : n ≤ line.length
      · have hne : line.take n ≠ [] := List.ne_nil_of_length_pos (by rw [List.length_take]; omega)
        rw [List.take_append_of_le_length hfits, lineStarts_last hcut hne]
        rfl
      · rw [List.take_of_length_le (by rw [List.length_append, List.length_singleton]; omega),
          lineStarts_line hline]
        rfl
    · case isFalse hended =>
      have hpos := List.length_pos_of_ne_nil (hlast (by simpa using hended))
      have hne : line.take n ≠ [] := List.ne_nil_of_length_pos (by rw [List.length_take]; omega)
      rw [lineStarts_last hcut hne]
      rfl

theorem lineStarts_unlines (hnl : ∀ line ∈ lines, 0x0a ∉ line)
    (hlast : ended = false → ∀ line ∈ lines.getLast?, line ≠ []) :
    (lineStarts (unlines ended lines)).length = lines.length := by
  induction lines with
  | nil => rfl
  | cons line lines ih =>
    obtain ⟨hline, hrest⟩ := List.forall_mem_cons.1 hnl
    by_cases hend : lines = []
    · subst hend
      cases ended with
      | true =>
        show (lineStarts (line ++ 0x0a :: [])).length = 1
        rw [lineStarts_line hline]
        rfl
      | false =>
        show (lineStarts line).length = 1
        rw [lineStarts_last hline (hlast rfl line rfl)]
        rfl
    · rw [unlines_cons ended line hend, lineStarts_line hline, List.length_cons,
        List.length_cons, ih hrest fun h l hl => hlast h l (by
          rwa [List.getLast?_cons_of_ne_nil hend])]

theorem lineStarts_le_one {line : Bytes} (hline : 0x0a ∉ line) : (lineStarts line).length ≤ 1 := by
  by_cases hne : line = []
  · rw [hne]
    exact Nat.zero_le 1
  · rw [lineStarts_last hline hne]
    rfl

/-- **Counting lines** in the first `n` bytes of a text. -/
theorem lineStarts_take_iff (hnl : ∀ line ∈ lines, 0x0a ∉ line)
    (hlast : ended = false → ∀ line ∈ lines.getLast?, line ≠ []) (n : Nat) :
    (lineStarts ((unlines ended lines).take n)).length = lines.length ↔
      LastStartsWithin n lines := by
  induction lines generalizing n with
  | nil =>
    refine iff_of_true ?_ fun h => absurd rfl h
    rw [unlines, List.take_nil]
    rfl
  | cons line lines ih =>
    obtain ⟨hline, hrest⟩ := List.forall_mem_cons.1 hnl
    by_cases hend : lines = []
    · subst hend
      rw [List.length_singleton, lineStarts_take_single hline fun h => hlast h line rfl]
      simp [LastStartsWithin, unlines]
    · rw [LastStartsWithin, unlines_cons ended line hend, List.dropLast_cons_of_ne_nil hend,
        length_unlines_cons, List.length_cons]
      have hlines : 0 < lines.length := List.length_pos_of_ne_nil hend
      by_cases hfits : n ≤ line.length
      · -- not even the newline is there
        have hcut := lineStarts_le_one fun hmem => hline (List.mem_of_mem_take (i := n) hmem)
        rw [List.take_append_of_le_length hfits]
        refine iff_of_false (by omega) fun h => ?_
        have hlt := h (List.cons_ne_nil line lines)
        omega
      · have htake : (line ++ 0x0a :: unlines ended lines).take n =
            line ++ 0x0a :: (unlines ended lines).take (n - line.length - 1) := by
          rw [List.take_append, List.take_of_length_le (Nat.le_of_not_le hfits),
            show n - line.length = n - line.length - 1 + 1 by omega, List.take_succ_cons]
          rfl
        have hend' : ended = false → ∀ line ∈ lines.getLast?, line ≠ [] := by
          intro h l hl
          refine hlast h l ?_
          rwa [List.getLast?_cons_of_ne_nil hend]
        rw [htake, lineStarts_line hline, List.length_cons, Nat.succ_inj,
          ih hrest hend' (n - line.length - 1), LastStartsWithin]
        simp only [ne_eq, hend, not_false_eq_true, forall_const, reduceCtorEq]
        omega

end

end CLib
