import Qmem.Lib.Lines

/-!
# Reading a file line by line (`stdio.h`)
-/

namespace CLib

/-- What is left of a file is handed out in pieces that end behind a newline, or when they have
`n - 1` bytes, or with the file; `piece` has been read already. -/
def fgetsFrom (n : Nat) : Bytes → Bytes → List Bytes
  | piece, [] => if piece = [] then [] else [piece]
  | piece, c :: s =>
    if c = 0x0a ∨ n ≤ piece.length + 2 then (piece ++ [c]) :: fgetsFrom n [] s
    else fgetsFrom n (piece ++ [c]) s

/-- What `fgets(line, n, f)` puts into `line`, call by call, until it returns NULL. -/
def fgetsAll (n : Nat) (s : Bytes) : List Bytes := fgetsFrom n [] s

variable {n : Nat}

theorem fgetsFrom_step {piece : Bytes} {c : UInt8} (hc : c ≠ 0x0a) (hn : piece.length + 2 < n)
    (s : Bytes) : fgetsFrom n piece (c :: s) = fgetsFrom n (piece ++ [c]) s := by
  rw [fgetsFrom, if_neg (by simp only [hc, false_or]; omega)]

theorem fgetsFrom_append {piece line : Bytes} (hline : 0x0a ∉ line)
    (hn : piece.length + line.length + 1 < n) (s : Bytes) :
    fgetsFrom n piece (line ++ s) = fgetsFrom n (piece ++ line) s := by
  induction line generalizing piece with
  | nil => rw [List.nil_append, List.append_nil]
  | cons c line ih =>
    rw [List.mem_cons, not_or] at hline
    rw [List.length_cons] at hn
    rw [List.cons_append, fgetsFrom_step (Ne.symm hline.1) (by omega), ih hline.2
      (by rw [List.length_append, List.length_singleton]; omega), List.append_assoc,
      List.singleton_append]

/-- A line that fits. -/
theorem fgetsAll_line {line : Bytes} (hline : 0x0a ∉ line) (hn : line.length + 1 < n)
    (s : Bytes) : fgetsAll n (line ++ 0x0a :: s) = (line ++ [0x0a]) :: fgetsAll n s := by
  rw [fgetsAll, fgetsFrom_append hline (by rw [List.length_nil]; omega), List.nil_append,
    fgetsFrom, if_pos (.inl rfl)]
  rfl

/-- The last line, if it has no newline. -/
theorem fgetsAll_last {line : Bytes} (hline : 0x0a ∉ line) (hn : line.length + 1 < n)
    (hne : line ≠ []) : fgetsAll n line = [line] := by
  have hall : fgetsFrom n [] (line ++ []) = fgetsFrom n ([] ++ line) [] :=
    fgetsFrom_append hline (by rw [List.length_nil]; omega) []
  rw [List.append_nil, List.nil_append] at hall
  rw [fgetsAll, hall, fgetsFrom, if_neg hne]

/-- The first line of a text that is given by its lines. -/
theorem fgetsAll_unlines (ended : Bool) {line : Bytes} (hline : 0x0a ∉ line)
    (hn : line.length + 1 < n) (hne : line ≠ []) (lines : List Bytes) :
    ∃ newline : Bool, fgetsAll n (unlines ended (line :: lines)) =
      (line ++ if newline then [0x0a] else []) :: fgetsAll n (unlines ended lines) := by
  by_cases hend : lines = []
  · refine ⟨ended, ?_⟩
    rw [hend]
    cases ended with
    | true => exact fgetsAll_line hline hn []
    | false =>
      show fgetsAll n line = (line ++ []) :: fgetsAll n []
      rw [List.append_nil, fgetsAll_last hline hn hne]
      rfl
  · refine ⟨true, ?_⟩
    rw [unlines_cons ended line hend, fgetsAll_line hline hn]
    rfl

/-- Behind a newline one starts anew. -/
theorem fgetsFrom_newline {s : Bytes} (hs : s.getLast? = some 0x0a) (piece rest : Bytes) :
    fgetsFrom n piece (s ++ rest) = fgetsFrom n piece s ++ fgetsAll n rest := by
  induction s generalizing piece with
  | nil => exact nomatch hs
  | cons c s ih =>
    by_cases hlast : s = []
    · subst hlast
      have hc : c = 0x0a := Option.some.inj hs
      rw [List.singleton_append, fgetsFrom, fgetsFrom, if_pos (.inl hc), if_pos (.inl hc)]
      rfl
    · rw [List.getLast?_cons_of_ne_nil hlast] at hs
      rw [List.cons_append, fgetsFrom, fgetsFrom, ih hs, ih hs]
      split
      · rfl
      · rfl

theorem fgetsAll_append {s : Bytes} (hs : s.getLast? = some 0x0a) (rest : Bytes) :
    fgetsAll n (s ++ rest) = fgetsAll n s ++ fgetsAll n rest := fgetsFrom_newline hs [] rest

/-! ## Lines that fit -/

/-- The lines of a text, each with its newline. -/
def linesOf : Bytes → List Bytes
  | [] => []
  | c :: s =>
    if c = 0x0a then [c] :: linesOf s
    else
      match linesOf s with
      | [] => [[c]]
      | line :: lines => (c :: line) :: lines

/-- With `piece` in front of the first of them. -/
def withFirst (piece : Bytes) : List Bytes → List Bytes
  | [] => if piece = [] then [] else [piece]
  | line :: lines => (piece ++ line) :: lines

theorem withFirst_linesOf {piece : Bytes} {c : UInt8} (hc : c ≠ 0x0a) (s : Bytes) :
    withFirst piece (linesOf (c :: s)) = withFirst (piece ++ [c]) (linesOf s) := by
  rw [linesOf, if_neg hc]
  cases linesOf s with
  | nil => simp [withFirst]
  | cons line lines => simp [withFirst]

theorem linesOf_cons (c : UInt8) (s : Bytes) :
    ∃ line lines, linesOf (c :: s) = (c :: line) :: lines := by
  rw [linesOf]
  split
  · exact ⟨[], linesOf s, rfl⟩
  · split
    · exact ⟨[], [], rfl⟩
    · case h_2 line lines _ => exact ⟨line, lines, rfl⟩

theorem fgetsFrom_linesOf {piece : Bytes} {s : Bytes}
    (h : ∀ line ∈ withFirst piece (linesOf s), line.length < n) :
    fgetsFrom n piece s = withFirst piece (linesOf s) := by
  induction s generalizing piece with
  | nil => rfl
  | cons c s ih =>
    by_cases hc : c = 0x0a
    · rw [fgetsFrom, if_pos (.inl hc)]
      rw [linesOf, if_pos hc, withFirst] at h ⊢
      have hlater : withFirst [] (linesOf s) = linesOf s := by
        cases linesOf s <;> rfl
      rw [ih (by rw [hlater]; exact (List.forall_mem_cons.1 h).2), hlater]
    · rw [withFirst_linesOf hc] at h ⊢
      cases s with
      | nil =>
        rw [fgetsFrom]
        split
        · simp [fgetsFrom, linesOf, withFirst]
        · simp [fgetsFrom, linesOf, withFirst]
      | cons d s =>
        -- another character follows, so the piece is not full
        obtain ⟨line, lines, hlines⟩ := linesOf_cons d s
        have hfirst : (piece ++ [c] ++ d :: line).length < n := by
          rw [hlines] at h
          exact h _ List.mem_cons_self
        simp only [List.length_append, List.length_cons, List.length_nil] at hfirst
        rw [fgetsFrom_step hc (by omega), ih h]

/-- **A text whose lines fit** is read line by line. -/
theorem fgetsAll_linesOf {s : Bytes} (h : ∀ line ∈ linesOf s, line.length < n) :
    fgetsAll n s = linesOf s := by
  have hfirst : withFirst [] (linesOf s) = linesOf s := by cases linesOf s <;> rfl
  rw [fgetsAll, fgetsFrom_linesOf (by rwa [hfirst]), hfirst]

end CLib
