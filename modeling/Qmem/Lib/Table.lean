import Qmem.Lib.Scanf
import Qmem.Lib.Stdio

/-!
# Tables

A table is a text of lines, and a loop over it puts an entry into an array for every line that is
a row, until the array is full. So the array has the entries of the first rows, as many as there
is room for, whatever the loop looks at behind a line.
-/

namespace CLib

section

variable {ρ σ α : Type} {cap : Nat} {loop : List ρ → σ → σ} {step : σ → ρ → σ}
  {row : ρ → Option α}

/-- **A loop that stops when its array is full** takes the entries there is room for. -/
theorem entries_of_loop (entries : σ → List α) (hnil : ∀ s, loop [] s = s)
    (hcons : ∀ r rs s, loop (r :: rs) s =
      if (entries s).length < cap then loop rs (step s r) else s)
    (hstep : ∀ s r, entries (step s r) = entries s ++ (row r).toList) (rs : List ρ) (s : σ) :
    entries (loop rs s) =
      entries s ++ (rs.filterMap row).take (cap - (entries s).length) := by
  induction rs generalizing s with
  | nil => rw [hnil, List.filterMap_nil, List.take_nil, List.append_nil]
  | cons r rs ih =>
    rw [hcons, List.filterMap_cons]
    split
    · case isTrue hroom =>
      rw [ih, hstep]
      cases row r with
      | none => rw [Option.toList_none, List.append_nil]
      | some a =>
        rw [Option.toList_some, List.length_append, List.length_singleton, List.append_assoc,
          show cap - (entries s).length = cap - ((entries s).length + 1) + 1 by omega,
          List.take_succ_cons, List.singleton_append]
    · case isFalse hfull =>
      rw [Nat.sub_eq_zero_of_le (by omega), List.take_zero, List.append_nil]

/-- **A loop that goes on when its array is full** takes the entries there is room for, too. -/
theorem entries_of_foldl (entries : σ → List α) {rows : ρ → List α}
    (hstep : ∀ s r, entries (step s r) =
      entries s ++ (rows r).take (cap - (entries s).length)) (rs : List ρ) (s : σ) :
    entries (rs.foldl step s) =
      entries s ++ (rs.flatMap rows).take (cap - (entries s).length) := by
  induction rs generalizing s with
  | nil => simp
  | cons r rs ih =>
    rw [List.foldl_cons, ih, hstep, List.flatMap_cons, List.take_append, List.append_assoc,
      List.length_append, List.length_take]
    congr 3
    omega

end

/-! ## Columns -/

/-- The spaces between two columns: one, and so many more. -/
def spaces (more : Nat) : Bytes := List.replicate (more + 1) 0x20

theorem spaces_isspace (more : Nat) : ∀ c ∈ spaces more, isspace c = true := by
  intro c hc
  rw [List.eq_of_mem_replicate hc]
  decide

theorem stops_spaces {p : UInt8 → Bool} (h : p 0x20 = false) (more : Nat) (s : Bytes) :
    Stops p (spaces more ++ s) := by
  intro c hc
  rw [← Option.some.inj hc]
  exact h

/-- What comes behind a line. -/
theorem stops_of_newline {p : UInt8 → Bool} (h : p 0x0a = false) {rest : Bytes}
    (hrest : ∀ c ∈ rest.head?, c = 0x0a) : Stops p rest := by
  intro c hc
  rw [hrest c hc]
  exact h

theorem stops_append {p : UInt8 → Bool} {front rest : Bytes} (hfront : Stops p front)
    (hrest : Stops p rest) : Stops p (front ++ rest) := by
  cases front with
  | nil => exact hrest
  | cons c front => exact hfront

instance (p : UInt8 → Bool) (rest : Bytes) : Decidable (Stops p rest) :=
  inferInstanceAs (Decidable (∀ c ∈ rest.head?, p c = false))

theorem not_mem_spaces {c : UInt8} (hc : c ≠ 0x20) (more : Nat) : c ∉ spaces more := by
  intro h
  exact hc (List.eq_of_mem_replicate h)

/-- What is looked for ends before something that is not in it. -/
theorem prefix_append_iff {needle front rest : Bytes} (h : ∀ c ∈ rest.head?, c ∉ needle) :
    needle <+: front ++ rest ↔ needle <+: front := by
  constructor
  · intro hpre
    obtain ⟨suffix, hsuffix⟩ := hpre
    rcases List.append_eq_append_iff.1 hsuffix with ⟨more, hfront, -⟩ | ⟨more, hneedle, hrest⟩
    · exact ⟨more, hfront.symm⟩
    · cases more with
      | nil =>
        rw [hneedle, List.append_nil]
      | cons c more =>
        have hc : c ∈ needle := by simp [hneedle]
        exact absurd hc (h c (by simp [hrest]))
  · intro hpre
    exact hpre.trans (List.prefix_append front rest)

/-- Two texts that are alike up to the same separator. -/
theorem append_cons_cancel {c : UInt8} {front front' rest rest' : Bytes} (hfront : c ∉ front)
    (hfront' : c ∉ front') (h : front ++ c :: rest = front' ++ c :: rest') :
    front = front' ∧ rest = rest' := by
  have hread {s : Bytes} (hs : c ∉ s) (t : Bytes) :
      (s ++ c :: t).takeWhile (fun d => decide (d ≠ c)) = s := by
    refine takeWhile_stops (fun d hd => decide_eq_true fun heq => hs (heq ▸ hd)) ?_
    intro d hd
    rw [← Option.some.inj hd]
    simp
  have hfronts := congrArg (List.takeWhile fun d => decide (d ≠ c)) h
  rw [hread hfront, hread hfront'] at hfronts
  subst hfronts
  exact ⟨rfl, (List.cons.inj (List.append_cancel_left h)).2⟩

/-- A column with a number that is not negative. -/
structure Column where
  more : Nat
  digits : Token Json.isDigit

namespace Column

def text (c : Column) : Bytes := spaces c.more ++ c.digits.bytes

def value (c : Column) : UInt64 := ulong false (Json.natValue c.digits.bytes)

theorem not_mem_text (col : Column) {c : UInt8} (hspace : c ≠ 0x20)
    (hdigit : Json.isDigit c = false) : c ∉ col.text := by
  rw [text, List.mem_append, not_or]
  exact ⟨not_mem_spaces hspace col.more, col.digits.not_mem hdigit⟩

theorem stops_text {p : UInt8 → Bool} (h : p 0x20 = false) (col : Column) (s : Bytes) :
    Stops p (col.text ++ s) := by
  rw [text, List.append_assoc]
  exact stops_spaces h col.more _

end Column

/-- A format that asks for so many numbers reads so many columns. -/
theorem sscanf_columns (cols : List Column) {rest : Bytes} (hrest : Stops Json.isDigit rest)
    (ds : List Directive) :
    sscanf ((List.replicate cols.length [.blank, .unsigned]).flatten ++ ds)
        ((cols.map Column.text).flatten ++ rest) =
      cols.map (fun col => .unsigned col.value) ++ sscanf ds rest := by
  induction cols with
  | nil => rfl
  | cons col cols ih =>
    have hstops : Stops Json.isDigit ((cols.map Column.text).flatten ++ rest) := by
      cases cols with
      | nil => exact hrest
      | cons next cols =>
        rw [List.map_cons, List.flatten_cons, List.append_assoc]
        exact next.stops_text (by decide) _
    rw [List.map_cons, List.flatten_cons, Column.text, List.append_assoc, List.append_assoc,
      List.length_cons, List.replicate_succ, List.flatten_cons, List.append_assoc,
      List.cons_append, List.cons_append, List.nil_append,
      sscanf_unsigned (spaces_isspace _) _ col.digits hstops, ih, List.map_cons, List.cons_append]
    rfl

/-! ## The lines of a table -/

section

variable {α β : Type} {row : Bytes → Option α} {line : β → Bytes} {entry : β → Option α}

/-- The loop comes to the start of every line. -/
theorem lineStarts_cons {first : Bytes} (hnl : 0x0a ∉ first) (hne : first ≠ []) (ended : Bool)
    (lines : List Bytes) :
    ∃ rest, (∀ c ∈ rest.head?, c = 0x0a) ∧ lineStarts (unlines ended (first :: lines)) =
      (first ++ rest) :: lineStarts (unlines ended lines) := by
  by_cases hlast : lines = []
  · subst hlast
    cases ended with
    | true =>
      refine ⟨[0x0a], ?_, lineStarts_line hnl []⟩
      intro c hc
      exact (Option.some.inj hc).symm
    | false =>
      refine ⟨[], fun c hc => absurd hc (Option.not_mem_none c), ?_⟩
      rw [List.append_nil]
      exact lineStarts_last hnl hne
  · rw [unlines_cons ended first hlast]
    refine ⟨0x0a :: unlines ended lines, ?_, lineStarts_line hnl _⟩
    intro c hc
    exact (Option.some.inj hc).symm

/-- **What a loop over the line starts finds**: on every line what stands there, if that does not
depend on what comes behind the line. -/
theorem filterMap_lineStarts {rows : List β} (hnl : ∀ b ∈ rows, 0x0a ∉ line b)
    (hne : ∀ b ∈ rows, line b ≠ [])
    (hrow : ∀ b ∈ rows, ∀ rest, (∀ c ∈ rest.head?, c = (0x0a : UInt8)) →
      row (line b ++ rest) = entry b) (ended : Bool) :
    (lineStarts (unlines ended (rows.map line))).filterMap row = rows.filterMap entry := by
  induction rows with
  | nil => rfl
  | cons b rows ih =>
    obtain ⟨hnl, hnlRows⟩ := List.forall_mem_cons.1 hnl
    obtain ⟨hne, hneRows⟩ := List.forall_mem_cons.1 hne
    obtain ⟨hrow, hrowRows⟩ := List.forall_mem_cons.1 hrow
    obtain ⟨rest, hrest, hstarts⟩ := lineStarts_cons hnl hne ended (rows.map line)
    rw [List.map_cons, hstarts, List.filterMap_cons, List.filterMap_cons, hrow rest hrest,
      ih hnlRows hneRows hrowRows]

/-- What a loop finds that reads the table with `fgets`. -/
theorem filterMap_fgetsAll {n : Nat} {rows : List β} (hnl : ∀ b ∈ rows, 0x0a ∉ line b)
    (hne : ∀ b ∈ rows, line b ≠ []) (hlen : ∀ b ∈ rows, (line b).length + 1 < n)
    (hrow : ∀ b ∈ rows, ∀ newline : Bool,
      row (line b ++ if newline then [0x0a] else []) = entry b) (ended : Bool) :
    (fgetsAll n (unlines ended (rows.map line))).filterMap row = rows.filterMap entry := by
  induction rows with
  | nil => rfl
  | cons b rows ih =>
    obtain ⟨hnl, hnlRows⟩ := List.forall_mem_cons.1 hnl
    obtain ⟨hne, hneRows⟩ := List.forall_mem_cons.1 hne
    obtain ⟨hlen, hlenRows⟩ := List.forall_mem_cons.1 hlen
    obtain ⟨hrow, hrowRows⟩ := List.forall_mem_cons.1 hrow
    obtain ⟨newline, hpieces⟩ := fgetsAll_unlines ended hnl hlen hne (rows.map line)
    rw [List.map_cons, hpieces, List.filterMap_cons, List.filterMap_cons, hrow newline,
      ih hnlRows hneRows hlenRows hrowRows]

end

end CLib
