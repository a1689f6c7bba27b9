import Qmem.Lib.PoolTable

/-!
# Loops along the links of a pool

`chain` and `findFrom` stop after so many steps. The loops they stand for have no such bound:
`Walk` and `Search` are the runs of these that come to an end. They all do, since a link always
leads to a smaller index; this survives any number of rounds, and it does not matter which values
the rounds write, nor that the older table leads into nodes that have been written again.
-/

namespace PoolTable

section

variable {α κ : Type}

/-- `while (e) e = e->next;` comes to its end, by way of `path`. -/
inductive Walk (pool : Pool α) : Option Nat → List Nat → Prop where
  | stop : Walk pool none []
  | next {i : Nat} {path : List Nat} (rest : Walk pool (pool i).next path) :
      Walk pool (some i) (i :: path)

/-- `while (e) { if (key(e) == x) return e; e = e->next; }` comes to its end, with that result. -/
inductive Search (key : α → κ) (pool : Pool α) (x : κ) : Option Nat → Option Nat → Prop where
  | absent : Search key pool x none none
  | found {i : Nat} (h : key (pool i).val = x) : Search key pool x (some i) (some i)
  | next {i : Nat} {result : Option Nat} (h : key (pool i).val ≠ x)
      (rest : Search key pool x (pool i).next result) : Search key pool x (some i) result

/-- The start of a loop is under `n`. -/
def Under (n : Nat) (s : Option Nat) : Prop := ∀ i, s = some i → i < n

variable {pool : Pool α} {s : Option Nat} {n fuel : Nat}

theorem Descending.under_next (h : Descending pool) {i : Nat} (hi : i < n + 1) :
    Under n (pool i).next := fun k hk => by
  have hlt := h i k hk
  omega

/-- Under `n` there are no more than `n` nodes to pass. -/
theorem Descending.walk (h : Descending pool) (hs : Under n s) (hn : n ≤ fuel) :
    Walk pool s (chain pool fuel s) := by
  induction n generalizing s fuel with
  | zero =>
    cases s with
    | none =>
      cases fuel with
      | zero => exact .stop
      | succ fuel => exact .stop
    | some i => exact absurd (hs i rfl) (Nat.not_lt_zero i)
  | succ n ih =>
    obtain ⟨fuel, rfl⟩ := Nat.exists_eq_add_of_le' (Nat.le_of_add_left_le hn : 1 ≤ fuel)
    cases s with
    | none => exact .stop
    | some i => exact .next (ih (h.under_next (hs i rfl)) (Nat.le_of_succ_le_succ hn))

theorem Descending.search [DecidableEq κ] {key : α → κ} (h : Descending pool) (x : κ)
    (hs : Under n s) (hn : n ≤ fuel) : Search key pool x s (findFrom key pool x fuel s) := by
  induction n generalizing s fuel with
  | zero =>
    cases s with
    | none =>
      cases fuel with
      | zero => exact .absent
      | succ fuel => exact .absent
    | some i => exact absurd (hs i rfl) (Nat.not_lt_zero i)
  | succ n ih =>
    obtain ⟨fuel, rfl⟩ := Nat.exists_eq_add_of_le' (Nat.le_of_add_left_le hn : 1 ≤ fuel)
    cases s with
    | none => exact .absent
    | some i =>
      rw [findFrom]
      by_cases hkey : key (pool i).val = x
      · rw [if_pos hkey]
        exact .found hkey
      · rw [if_neg hkey]
        exact .next hkey (ih (h.under_next (hs i rfl)) (Nat.le_of_succ_le_succ hn))

theorem Descending.update (h : Descending pool) {i : Nat} {node : Node α}
    (hnode : Under i node.next) : Descending (Function.update pool i node) := by
  intro j k hk
  by_cases hj : j = i
  · rw [hj, Function.update_self] at hk
    rw [hj]
    exact hnode k hk
  · rw [Function.update_of_ne hj] at hk
    exact h j k hk

/-- No loop passes a node twice. -/
theorem Walk.decreasing (h : Descending pool) {path : List Nat} (hwalk : Walk pool s path)
    (hs : Under n s) : path.Pairwise (· > ·) ∧ ∀ i ∈ path, i < n := by
  induction hwalk generalizing n with
  | stop => exact ⟨List.Pairwise.nil, nofun⟩
  | next rest ih =>
    rename_i i path
    have hi : i < n := hs i rfl
    obtain ⟨hpath, hlt⟩ := ih (n := i) fun k hk => h i k hk
    refine ⟨List.Pairwise.cons hlt hpath, fun k hk => ?_⟩
    obtain rfl | hk := List.mem_cons.1 hk
    · exact hi
    · exact (hlt k hk).trans hi

end

namespace Tables

variable {α κ : Type} {t : Tables α} {size : Nat}

/-- Links go down, and both tables lead into the pool. -/
structure Linked (size : Nat) (t : Tables α) : Prop where
  descending : Descending t.pool
  current : ∀ b, Under t.poolIdx (t.current b)
  previous : ∀ b, Under size (t.previous b)
  room : t.poolIdx ≤ size

/-- The next node is handed out: it has another value, and a link that is still the old one or
none. It is in no table yet. -/
def taken (t : Tables α) (x : α) (cleared : Bool) : Tables α :=
  { t with
    pool := Function.update t.pool t.poolIdx
      ⟨x, if cleared then none else (t.pool t.poolIdx).next⟩
    poolIdx := t.poolIdx + 1 }

theorem Linked.init (zero : α) : (Tables.init zero).Linked size where
  descending _ _ hk := nomatch hk
  current _ _ hi := nomatch hi
  previous _ _ hi := nomatch hi
  room := Nat.zero_le size

theorem Linked.swap (h : t.Linked size) : t.swap.Linked size where
  descending := h.descending
  current _ _ hi := nomatch hi
  previous b i hi := Nat.lt_of_lt_of_le (h.current b i hi) h.room
  room := Nat.zero_le size

/-- A new link goes to a node that is already in the table. -/
theorem Linked.add (h : t.Linked size) (hroom : t.poolIdx < size) (key : α → κ) (hash : κ → Nat)
    (x : α) : (t.add key hash x).Linked size where
  descending := h.descending.update (h.current _)
  current b i hi := by
    have hhead : Function.update t.current (hash (key x)) (some t.poolIdx) b = some i := hi
    show i < t.poolIdx + 1
    by_cases hb : b = hash (key x)
    · rw [hb, Function.update_self] at hhead
      rw [← Option.some.inj hhead]
      exact Nat.lt_succ_self _
    · rw [Function.update_of_ne hb] at hhead
      exact (h.current b i hhead).trans (Nat.lt_succ_self _)
  previous := h.previous
  room := hroom

theorem Linked.taken (h : t.Linked size) (hroom : t.poolIdx < size) (x : α) (cleared : Bool) :
    (t.taken x cleared).Linked size where
  descending := by
    refine h.descending.update fun k hk => ?_
    cases cleared with
    | true => exact nomatch hk
    | false => exact h.descending _ k hk
  current b i hi := (h.current b i hi).trans (Nat.lt_succ_self _)
  previous := h.previous
  room := hroom

/-- Following the links from any node comes to an end, on the way no node is passed twice; so does
every search in one of the two tables, and every walk through one of their buckets. The functions
that stop after `size` steps say with which result. -/
structure Ends (key : α → κ) (hash : κ → Nat) [DecidableEq κ] (size : Nat) (t : Tables α) :
    Prop where
  links : ∀ i, ∃ path, Walk t.pool (some i) path ∧ path.Nodup ∧ path.length ≤ i + 1
  search : ∀ heads ∈ [t.current, t.previous], ∀ x,
    Search key t.pool x (heads (hash x)) (findFrom key t.pool x size (heads (hash x)))
  bucket : ∀ heads ∈ [t.current, t.previous], ∀ b,
    Walk t.pool (heads b) (chain t.pool size (heads b))

/-- **Every loop over such tables ends.** -/
theorem Linked.ends [DecidableEq κ] (h : t.Linked size) (key : α → κ) (hash : κ → Nat) :
    t.Ends key hash size := by
  have hunder {heads : Heads} (hheads : heads ∈ [t.current, t.previous]) (b : Nat) :
      Under size (heads b) := by
    rw [List.mem_cons, List.mem_singleton] at hheads
    obtain rfl | rfl := hheads
    · intro i hi
      exact Nat.lt_of_lt_of_le (h.current b i hi) h.room
    · exact h.previous b
  refine ⟨fun i => ?_, fun heads hheads x => ?_, fun heads hheads b => ?_⟩
  · have hi : Under (i + 1) (some i) := fun k hk => by
      rw [← Option.some.inj hk]
      exact Nat.lt_succ_self i
    have hwalk := h.descending.walk hi (Nat.le_refl _)
    obtain ⟨hdown, hlt⟩ := hwalk.decreasing h.descending hi
    have hnodup : (chain t.pool (i + 1) (some i)).Nodup :=
      hdown.imp fun hgt => (Nat.ne_of_lt hgt).symm
    have hrange := hnodup.subperm fun k hk => List.mem_range.2 (hlt k hk)
    refine ⟨_, hwalk, hnodup, ?_⟩
    exact hrange.length_le.trans_eq List.length_range
  · exact h.descending.search x (hunder hheads _) (Nat.le_refl _)
  · exact h.descending.walk (hunder hheads b) (Nat.le_refl _)

end Tables

end PoolTable
