import Mathlib.Tactic

/-!
# Chained hash tables over one refilled pool

A pool of nodes is filled from index 0. Two tables of bucket heads point into it: the one being
built, and the one left by the round before, whose nodes are being overwritten underneath it.
A node's link always points to a smaller index, so every chain ends; what a chain of the older
table passes through depends on how far the pool has been refilled.

`below p n` lists the indices under `n` at which `p` holds, the largest first: that is the order
in which a chain visits its bucket. `Refilling` is the invariant of a round, kept by `add`;
`chain_prev` says what a chain of the older table visits, and `find_prev` what a search in it
finds.
-/

namespace PoolTable

/-! ## Indices under a bound, largest first -/

def below (p : Nat → Bool) : Nat → List Nat
  | 0 => []
  | n + 1 => if p n then n :: below p n else below p n

variable {p q : Nat → Bool}

theorem mem_below {n i : Nat} : i ∈ below p n ↔ i < n ∧ p i := by
  induction n with
  | zero => simp [below]
  | succ n ih =>
    rw [below]
    split
    · rename_i h
      rw [List.mem_cons, ih]
      constructor
      · rintro (rfl | ⟨hi, hp⟩)
        · exact ⟨by omega, h⟩
        · exact ⟨by omega, hp⟩
      · rintro ⟨hi, hp⟩
        rcases Nat.lt_succ_iff_lt_or_eq.1 hi with hi | rfl
        · exact Or.inr ⟨hi, hp⟩
        · exact Or.inl rfl
    · rename_i h
      rw [ih]
      constructor
      · rintro ⟨hi, hp⟩
        exact ⟨by omega, hp⟩
      · rintro ⟨hi, hp⟩
        rcases Nat.lt_succ_iff_lt_or_eq.1 hi with hi | rfl
        · exact ⟨hi, hp⟩
        · exact absurd hp h

theorem below_congr {n : Nat} (h : ∀ i < n, p i = q i) : below p n = below q n := by
  induction n with
  | zero => rfl
  | succ n ih => rw [below, below, h n (by omega), ih fun i hi => h i (by omega)]

theorem nodup_below (p : Nat → Bool) (n : Nat) : (below p n).Nodup := by
  induction n with
  | zero => exact List.nodup_nil
  | succ n ih =>
    rw [below]
    split
    · exact List.nodup_cons.2 ⟨fun h => absurd (mem_below.1 h).1 (lt_irrefl n), ih⟩
    · exact ih

/-- Below its first index, a list of indices goes on as the list under that index. -/
theorem below_eq_cons {n i : Nat} {l : List Nat} (h : below p n = i :: l) :
    i < n ∧ p i ∧ l = below p i := by
  induction n with
  | zero => simp [below] at h
  | succ n ih =>
    rw [below] at h
    split at h
    · rename_i hp
      obtain ⟨rfl, rfl⟩ := List.cons.inj h
      exact ⟨by omega, hp, rfl⟩
    · obtain ⟨hi, hp, hl⟩ := ih h
      exact ⟨by omega, hp, hl⟩

/-- The indices from `c` on come first. -/
theorem below_split (p : Nat → Bool) (c n : Nat) :
    below p n = (below p n).filter (c ≤ ·) ++ below p (min c n) := by
  induction n with
  | zero => simp [below]
  | succ n ih =>
    by_cases hc : c ≤ n
    · rw [min_eq_left hc] at ih
      rw [min_eq_left (by omega : c ≤ n + 1), below]
      split
      · rw [List.filter_cons_of_pos (by simp [hc]), List.cons_append, ← ih]
      · exact ih
    · have hnone : (below p (n + 1)).filter (c ≤ ·) = [] := by
        rw [List.filter_eq_nil_iff]
        intro i hi
        have := (mem_below.1 hi).1
        simp only [decide_eq_true_eq]
        omega
      rw [hnone, min_eq_right (by omega : n + 1 ≤ c), List.nil_append]

/-! ## Nodes and chains -/

structure Node (α : Type) where
  val : α
  next : Option Nat

abbrev Pool (α : Type) := Nat → Node α

abbrev Heads := Nat → Option Nat

section

variable {α κ : Type} (key : α → κ) (hash : κ → Nat)

/-- The nodes a chain visits. -/
def chain (pool : Pool α) : Nat → Option Nat → List Nat
  | 0, _ => []
  | _, none => []
  | fuel + 1, some i => i :: chain pool fuel (pool i).next

/-- Search along a chain: the first node with the key. -/
def findFrom [DecidableEq κ] (pool : Pool α) (x : κ) : Nat → Option Nat → Option Nat
  | 0, _ => none
  | _, none => none
  | fuel + 1, some i =>
    if key (pool i).val = x then some i else findFrom pool x fuel (pool i).next

theorem findFrom_eq [DecidableEq κ] (pool : Pool α) (x : κ) (fuel : Nat) (s : Option Nat) :
    findFrom key pool x fuel s = (chain pool fuel s).find? (fun i => key (pool i).val = x) := by
  induction fuel generalizing s with
  | zero => simp [findFrom, chain]
  | succ fuel ih =>
    cases s with
    | none => simp [findFrom, chain]
    | some i =>
      rw [findFrom, chain, List.find?_cons]
      split <;> simp_all

/-- Links go down. -/
def Descending (pool : Pool α) : Prop := ∀ i k, (pool i).next = some k → k < i

/-- More fuel than the starting index changes nothing: the chain has ended. -/
theorem chain_fuel {pool : Pool α} (h : Descending pool) {n fuel : Nat} {s : Option Nat}
    (hs : ∀ i, s = some i → i < n) (hn : n ≤ fuel) : chain pool fuel s = chain pool n s := by
  induction n generalizing fuel s with
  | zero =>
    cases s with
    | none => cases fuel <;> rfl
    | some i => exact absurd (hs i rfl) (by omega)
  | succ n ih =>
    obtain ⟨fuel, rfl⟩ : ∃ m, fuel = m + 1 := ⟨fuel - 1, by omega⟩
    cases s with
    | none => rfl
    | some i =>
      have hi := hs i rfl
      rw [chain, chain, ih (fun k hk => by have := h i k hk; omega) (by omega)]

/-! ## A table of the values `xs` -/

/-- The index `i` of `xs` lies in bucket `b`. -/
def inBucket (xs : List α) (b i : Nat) : Bool := (xs[i]?.map fun x => hash (key x)) == some b

theorem inBucket_of_getElem? {xs : List α} {x : α} {i : Nat} (h : xs[i]? = some x) (b : Nat) :
    inBucket key hash xs b i = (hash (key x) == b) := by
  simp [inBucket, h]

theorem inBucket_iff {xs : List α} {b i : Nat} :
    inBucket key hash xs b i = true ↔ ∃ x, xs[i]? = some x ∧ hash (key x) = b := by
  simp [inBucket]

/-- The node at `i` is the `i`-th of the values `xs`, linked to the one before it in its
bucket. -/
def Placed (pool : Pool α) (xs : List α) (i : Nat) : Prop :=
  ∀ x, xs[i]? = some x →
    (pool i).val = x ∧
      (pool i).next = (below (inBucket key hash xs (hash (key x))) i).head?

/-- The heads of a table of `xs`. -/
def HeadsOf (heads : Heads) (xs : List α) : Prop :=
  ∀ b, heads b = (below (inBucket key hash xs b) xs.length).head?

/-- The pool and the heads hold the values `xs`, at the indices they have in the list. -/
structure Holds (pool : Pool α) (heads : Heads) (xs : List α) : Prop where
  placed : ∀ i < xs.length, Placed key hash pool xs i
  heads_eq : HeadsOf key hash heads xs
  descending : Descending pool

/-- A chain that starts in a bucket of placed nodes visits the whole bucket. -/
theorem chain_placed {pool : Pool α} {xs : List α} {b n fuel : Nat}
    (h : ∀ i < n, Placed key hash pool xs i) (hn : n ≤ fuel) :
    chain pool fuel (below (inBucket key hash xs b) n).head? =
      below (inBucket key hash xs b) n := by
  induction n using Nat.strong_induction_on generalizing fuel with
  | _ n ih =>
    cases hl : below (inBucket key hash xs b) n with
    | nil => cases fuel <;> rfl
    | cons i l =>
      obtain ⟨hi, hb, rfl⟩ := below_eq_cons hl
      obtain ⟨x, hx, rfl⟩ := (inBucket_iff key hash).1 hb
      obtain ⟨fuel, rfl⟩ : ∃ m, fuel = m + 1 := ⟨fuel - 1, by omega⟩
      rw [List.head?_cons, chain, (h i hi x hx).2,
        ih i hi (fun k hk => h k (by omega)) (by omega)]

/-! ## Refilling -/

/-- In the middle of a round: the pool holds the new values `ys` and, behind them, what is left
of the old values `xs`; `prev` still has the heads of `xs`. -/
structure Refilling (pool : Pool α) (prev cur : Heads) (xs ys : List α) : Prop where
  new : Holds key hash pool cur ys
  old : ∀ i < xs.length, ys.length ≤ i → Placed key hash pool xs i
  prev_eq : HeadsOf key hash prev xs

/-- Writing the next node and putting it at the head of its bucket. -/
def addNode (pool : Pool α) (cur : Heads) (i : Nat) (x : α) : Pool α :=
  Function.update pool i ⟨x, cur (hash (key x))⟩

def addHead (cur : Heads) (i : Nat) (x : α) : Heads :=
  Function.update cur (hash (key x)) (some i)

variable {key hash}

theorem Holds.start {pool : Pool α} {heads : Heads} {xs : List α}
    (h : Holds key hash pool heads xs) : Refilling key hash pool heads (fun _ => none) xs [] where
  new := ⟨fun i hi => absurd hi (by simp), fun b => by simp [below], h.descending⟩
  old i hi _ := h.placed i hi
  prev_eq := h.heads_eq

theorem inBucket_append_left {ys : List α} {x : α} {b i : Nat} (hi : i < ys.length) :
    inBucket key hash (ys ++ [x]) b i = inBucket key hash ys b i := by
  rw [inBucket, inBucket, List.getElem?_append_left hi]

theorem Refilling.add {pool : Pool α} {prev cur : Heads} {xs ys : List α}
    (h : Refilling key hash pool prev cur xs ys) (x : α) :
    Refilling key hash (addNode key hash pool cur ys.length x) prev
      (addHead key hash cur ys.length x) xs (ys ++ [x]) := by
  have hkeep (i : Nat) (hi : i ≤ ys.length) (b : Nat) :
      below (inBucket key hash (ys ++ [x]) b) i = below (inBucket key hash ys b) i :=
    below_congr fun k hk => inBucket_append_left (by omega)
  refine ⟨⟨fun i hi y hy => ?_, fun b => ?_, fun i k hk => ?_⟩, fun i hi hlen y hy => ?_, h.prev_eq⟩
  · rw [List.length_append, List.length_singleton] at hi
    rcases Nat.lt_succ_iff_lt_or_eq.1 hi with hi | rfl
    · rw [List.getElem?_append_left hi] at hy
      have hold := h.new.placed i hi y hy
      rw [addNode, Function.update_of_ne (by omega), hkeep i (by omega)]
      exact hold
    · rw [List.getElem?_concat_length, Option.some.injEq] at hy
      subst hy
      rw [addNode, Function.update_self, hkeep _ le_rfl]
      exact ⟨rfl, h.new.heads_eq _⟩
  · have hlast : inBucket key hash (ys ++ [x]) b ys.length = (hash (key x) == b) :=
      inBucket_of_getElem? key hash List.getElem?_concat_length b
    rw [List.length_append, List.length_singleton, below, hlast, hkeep _ le_rfl, addHead]
    by_cases hb : hash (key x) = b
    · subst hb
      simp
    · rw [Function.update_of_ne (Ne.symm hb), if_neg (by simpa using hb)]
      exact h.new.heads_eq b
  · by_cases hi : i = ys.length
    · subst hi
      rw [addNode, Function.update_self] at hk
      have hhead : (below (inBucket key hash ys (hash (key x))) ys.length).head? = some k :=
        (h.new.heads_eq _).symm.trans hk
      exact (mem_below.1 (List.mem_of_mem_head? hhead)).1
    · rw [addNode, Function.update_of_ne hi] at hk
      exact h.new.descending i k hk
  · rw [List.length_append, List.length_singleton] at hlen
    rw [addNode, Function.update_of_ne (by omega)]
    exact h.old i hi (by omega) y hy

/-- A chain of the older table: what is left of its bucket, and then whatever chain the first
overwritten node has been put into. -/
theorem Refilling.chain_below {pool : Pool α} {prev cur : Heads} {xs ys : List α}
    (h : Refilling key hash pool prev cur xs ys) (b : Nat) {n fuel : Nat} (hn : n ≤ xs.length)
    (hfuel : n ≤ fuel) :
    chain pool fuel (below (inBucket key hash xs b) n).head? =
      (below (inBucket key hash xs b) n).filter (ys.length ≤ ·) ++
        chain pool fuel (below (inBucket key hash xs b) (min ys.length n)).head? := by
  induction n using Nat.strong_induction_on generalizing fuel with
  | _ n ih =>
    have hsplit := below_split (inBucket key hash xs b) ys.length n
    cases hl : below (inBucket key hash xs b) n with
    | nil =>
      rw [hl] at hsplit
      rw [(List.append_eq_nil_iff.1 hsplit.symm).2]
      rfl
    | cons i l =>
      obtain ⟨hi, hb, rfl⟩ := below_eq_cons hl
      by_cases hold : ys.length ≤ i
      · obtain ⟨x, hx, rfl⟩ := (inBucket_iff key hash).1 hb
        obtain ⟨fuel, rfl⟩ : ∃ m, fuel = m + 1 := ⟨fuel - 1, by omega⟩
        have hlast : ∀ k, (below (inBucket key hash xs (hash (key x))) ys.length).head? = some k →
            k < ys.length := fun k hk => (mem_below.1 (List.mem_of_mem_head? hk)).1
        rw [List.head?_cons, chain, (h.old i (by omega) hold x hx).2,
          ih i hi (by omega) (by omega), min_eq_left hold, min_eq_left (by omega),
          List.filter_cons_of_pos (by simpa using hold), List.cons_append,
          chain_fuel h.new.descending hlast (by omega : ys.length ≤ fuel),
          chain_fuel h.new.descending hlast (by omega : ys.length ≤ fuel + 1)]
      · -- the whole bucket has been overwritten
        have hnone : (i :: below (inBucket key hash xs b) i).filter (ys.length ≤ ·) = [] := by
          rw [List.filter_eq_nil_iff]
          intro k hk
          have hki : k ≤ i := by
            rcases List.mem_cons.1 hk with rfl | hk
            · exact le_rfl
            · exact (mem_below.1 hk).1.le
          simp only [decide_eq_true_eq]
          omega
        rw [hl, hnone, List.nil_append] at hsplit
        rw [hnone, List.nil_append, ← hsplit]

theorem Refilling.chain_prev {pool : Pool α} {prev cur : Heads} {xs ys : List α}
    (h : Refilling key hash pool prev cur xs ys) (b : Nat) {fuel : Nat}
    (hfuel : xs.length ≤ fuel) :
    chain pool fuel (prev b) =
      (below (inBucket key hash xs b) xs.length).filter (ys.length ≤ ·) ++
        chain pool fuel (below (inBucket key hash xs b) (min ys.length xs.length)).head? := by
  rw [h.prev_eq b]
  exact h.chain_below b le_rfl hfuel

/-- Where a chain of the older table runs into an overwritten node, it goes on along new nodes. -/
theorem Refilling.chain_overwritten {pool : Pool α} {prev cur : Heads} {xs ys : List α}
    (h : Refilling key hash pool prev cur xs ys) (i fuel : Nat) (hi : i < ys.length)
    (hfuel : i < fuel) :
    ∃ b, inBucket key hash ys b i = true ∧
      chain pool fuel (some i) = below (inBucket key hash ys b) (i + 1) := by
  have hy : ys[i]? = some ys[i] := List.getElem?_eq_getElem hi
  have hb : inBucket key hash ys (hash (key ys[i])) i = true :=
    (inBucket_iff key hash).2 ⟨_, hy, rfl⟩
  refine ⟨hash (key ys[i]), hb, ?_⟩
  have hhead : (below (inBucket key hash ys (hash (key ys[i]))) (i + 1)).head? = some i := by
    rw [below, if_pos hb, List.head?_cons]
  rw [← hhead]
  exact chain_placed key hash (fun k hk => h.new.placed k (by omega)) hfuel

theorem Holds.val_eq {pool : Pool α} {heads : Heads} {xs : List α}
    (h : Holds key hash pool heads xs) {i : Nat} {x : α} (hx : xs[i]? = some x) :
    (pool i).val = x :=
  (h.placed i (List.getElem?_eq_some_iff.1 hx).1 x hx).1

theorem Refilling.old_val {pool : Pool α} {prev cur : Heads} {xs ys : List α}
    (h : Refilling key hash pool prev cur xs ys) {b k : Nat}
    (hk : k ∈ (below (inBucket key hash xs b) xs.length).filter (ys.length ≤ ·)) :
    xs[k]? = some (pool k).val ∧ ys.length ≤ k := by
  obtain ⟨hmem, hle⟩ := List.mem_filter.1 hk
  obtain ⟨hlt, hb⟩ := mem_below.1 hmem
  obtain ⟨y, hy, -⟩ := (inBucket_iff key hash).1 hb
  have hle : ys.length ≤ k := by simpa using hle
  rw [(h.old k hlt hle y hy).1]
  exact ⟨hy, hle⟩

/-- The rest of such a chain visits new values only. -/
theorem Refilling.chain_new_mem {pool : Pool α} {prev cur : Heads} {xs ys : List α}
    (h : Refilling key hash pool prev cur xs ys) {b n fuel i : Nat} (hfuel : ys.length ≤ fuel)
    (hi : i ∈ chain pool fuel (below (inBucket key hash xs b) (min ys.length n)).head?) :
    (pool i).val ∈ ys := by
  cases hs : (below (inBucket key hash xs b) (min ys.length n)).head? with
  | none =>
    rw [hs] at hi
    cases fuel <;> simp [chain] at hi
  | some s =>
    have hlt : s < ys.length := by
      have := (mem_below.1 (List.mem_of_mem_head? hs)).1
      omega
    obtain ⟨b', -, hchain⟩ := h.chain_overwritten s fuel hlt (by omega)
    rw [hs, hchain] at hi
    have hi' : i < ys.length := by have := (mem_below.1 hi).1; omega
    rw [h.new.val_eq (List.getElem?_eq_getElem hi')]
    exact List.getElem_mem hi'

/-- In a list of distinct keys, the key tells the index. -/
theorem index_of_key {xs : List α} (hxs : (xs.map key).Nodup) {i k : Nat} {x y : α}
    (hx : xs[i]? = some x) (hy : xs[k]? = some y) (hkey : key y = key x) : k = i := by
  have hi : (xs.map key)[i]? = some (key x) := by simp [hx]
  have hk : (xs.map key)[k]? = some (key x) := by simp [hy, hkey]
  have hlt : i < (xs.map key).length := (List.getElem?_eq_some_iff.1 hi).1
  exact ((List.getElem?_inj hlt hxs).1 (hi.trans hk.symm)).symm

/-! ## Searching -/

section

variable [DecidableEq κ]

theorem Holds.find_isSome_iff {pool : Pool α} {heads : Heads} {xs : List α}
    (h : Holds key hash pool heads xs) (k : κ) {fuel : Nat} (hfuel : xs.length ≤ fuel) :
    (findFrom key pool k fuel (heads (hash k))).isSome ↔ ∃ x ∈ xs, key x = k := by
  rw [findFrom_eq, h.heads_eq, chain_placed key hash h.placed hfuel, List.find?_isSome]
  constructor
  · rintro ⟨i, hi, hk⟩
    obtain ⟨x, hx, -⟩ := (inBucket_iff key hash).1 (mem_below.1 hi).2
    rw [h.val_eq hx] at hk
    exact ⟨x, List.mem_of_getElem? hx, by simpa using hk⟩
  · rintro ⟨x, hx, rfl⟩
    obtain ⟨i, hi⟩ := List.mem_iff_getElem?.1 hx
    refine ⟨i, mem_below.2 ⟨(List.getElem?_eq_some_iff.1 hi).1, ?_⟩, ?_⟩
    · exact (inBucket_iff key hash).2 ⟨x, hi, rfl⟩
    · simp [h.val_eq hi]

/-- Where distinct keys make the search in the rest of a list a matter of positions. -/
theorem find_drop_of_key {xs : List α} (hxs : (xs.map key).Nodup) {i j : Nat} {x : α} {k : κ}
    (hx : xs[i]? = some x) (hkey : key x = k) :
    (xs.drop (j + 1)).find? (fun x => key x = k) = if j < i then some x else none := by
  cases hfind : (xs.drop (j + 1)).find? (fun x => key x = k) with
  | none =>
    rw [if_neg]
    intro hlt
    have hmem : x ∈ xs.drop (j + 1) := by
      refine List.mem_iff_getElem?.2 ⟨i - (j + 1), ?_⟩
      rw [List.getElem?_drop, ← hx]
      congr 1
      omega
    simpa [hkey] using List.find?_eq_none.1 hfind x hmem
  | some z =>
    have hz : key z = k := by simpa using List.find?_some hfind
    obtain ⟨l, hl⟩ := List.mem_iff_getElem?.1 (List.mem_of_find?_eq_some hfind)
    rw [List.getElem?_drop] at hl
    obtain rfl := index_of_key hxs hx hl (hz.trans hkey.symm)
    rw [hx, Option.some.injEq] at hl
    rw [if_pos (by omega), hl]

/-- The value of the node a search finds. -/
def valueAt (pool : Pool α) (i : Option Nat) : Option α := i.map fun i => (pool i).val

variable {pool : Pool α} {prev cur : Heads} {xs ys : List α}

/-- An old value whose node has not been overwritten is found. -/
theorem Refilling.find_prev_old (h : Refilling key hash pool prev cur xs ys)
    (hxs : (xs.map key).Nodup) {i fuel : Nat} {x : α} (hx : xs[i]? = some x)
    (hi : ys.length ≤ i) (hfuel : xs.length ≤ fuel) :
    valueAt pool (findFrom key pool (key x) fuel (prev (hash (key x)))) = some x := by
  have hlt : i < xs.length := (List.getElem?_eq_some_iff.1 hx).1
  have hmem : i ∈ (below (inBucket key hash xs (hash (key x))) xs.length).filter
      (ys.length ≤ ·) :=
    List.mem_filter.2 ⟨mem_below.2 ⟨hlt, (inBucket_iff key hash).2 ⟨x, hx, rfl⟩⟩, by simpa⟩
  have hval : (pool i).val = x := (h.old i hlt hi x hx).1
  rw [findFrom_eq, h.chain_prev _ hfuel, List.find?_append]
  cases hfind : ((below (inBucket key hash xs (hash (key x))) xs.length).filter
      (ys.length ≤ ·)).find? (fun i => key (pool i).val = key x) with
  | none => exact absurd (by simp [hval]) (List.find?_eq_none.1 hfind i hmem)
  | some k =>
    have hkey : key (pool k).val = key x := by simpa using List.find?_some hfind
    obtain rfl := index_of_key hxs hx (h.old_val (List.mem_of_find?_eq_some hfind)).1 hkey
    simp [valueAt, hval]

/-- A key whose old value has been overwritten is not among what is left. -/
theorem Refilling.find_old_gone (h : Refilling key hash pool prev cur xs ys) {k : κ}
    (hgone : ∀ x ∈ xs.drop ys.length, key x ≠ k) (b : Nat) :
    ((below (inBucket key hash xs b) xs.length).filter (ys.length ≤ ·)).find?
      (fun i => key (pool i).val = k) = none := by
  rw [List.find?_eq_none]
  intro i hi
  obtain ⟨hx, hle⟩ := h.old_val hi
  have hmem : (pool i).val ∈ xs.drop ys.length := by
    refine List.mem_iff_getElem?.2 ⟨i - ys.length, ?_⟩
    rw [List.getElem?_drop, ← hx]
    congr 1
    omega
  simpa using hgone _ hmem

/-- A search for such a key can still come to a new value that has it. -/
theorem Refilling.find_prev_gone (h : Refilling key hash pool prev cur xs ys) {k : κ}
    (hgone : ∀ x ∈ xs.drop ys.length, key x ≠ k) {fuel : Nat} (hfuel : xs.length ≤ fuel)
    (hfuel' : ys.length ≤ fuel) {v : α}
    (hv : valueAt pool (findFrom key pool k fuel (prev (hash k))) = some v) :
    v ∈ ys ∧ key v = k := by
  rw [findFrom_eq, h.chain_prev _ hfuel, List.find?_append, h.find_old_gone hgone,
    Option.none_or, valueAt, Option.map_eq_some_iff] at hv
  obtain ⟨i, hi, rfl⟩ := hv
  have hkey : key (pool i).val = k := by simpa using List.find?_some hi
  exact ⟨h.chain_new_mem hfuel' (List.mem_of_find?_eq_some hi), hkey⟩

/-- A value that is not among the old ones left is found only as the new node itself, where the
overwritten node of its index was in its bucket. -/
theorem Refilling.find_prev_new {y : α} (h : Refilling key hash pool prev cur xs (ys ++ [y]))
    (hys : key y ∉ ys.map key) (hgone : ∀ x ∈ xs.drop (ys.length + 1), key x ≠ key y)
    {fuel : Nat} (hfuel : xs.length ≤ fuel) (hnew : ys.length < fuel) :
    valueAt pool (findFrom key pool (key y) fuel (prev (hash (key y)))) =
      if inBucket key hash xs (hash (key y)) ys.length then some y else none := by
  have hlen : (ys ++ [y]).length = ys.length + 1 := by simp
  have hlast : (pool ys.length).val = y := h.new.val_eq List.getElem?_concat_length
  have hold := h.find_old_gone (by rwa [hlen]) (hash (key y))
  rw [findFrom_eq, h.chain_prev _ hfuel, List.find?_append, hold, Option.none_or, hlen]
  cases hs : (below (inBucket key hash xs (hash (key y)))
      (min (ys.length + 1) xs.length)).head? with
  | none =>
    have hno : inBucket key hash xs (hash (key y)) ys.length = false := by
      by_contra hin
      have hin : inBucket key hash xs (hash (key y)) ys.length = true := by simpa using hin
      obtain ⟨x, hx, -⟩ := (inBucket_iff key hash).1 hin
      have hlt := (List.getElem?_eq_some_iff.1 hx).1
      have hmem := mem_below.2 ⟨(by omega : ys.length < min (ys.length + 1) xs.length), hin⟩
      rw [List.head?_eq_none_iff.1 hs] at hmem
      simp at hmem
    rw [hno]
    cases fuel <;> rfl
  | some i =>
    obtain ⟨l, hl⟩ : ∃ l, below (inBucket key hash xs (hash (key y)))
        (min (ys.length + 1) xs.length) = i :: l := ⟨_, List.eq_cons_of_mem_head? hs⟩
    obtain ⟨hi, hib, -⟩ := below_eq_cons hl
    obtain ⟨b, hb, hchain⟩ := h.chain_overwritten i fuel (by omega) (by omega)
    rw [hchain]
    by_cases hself : i = ys.length
    · subst hself
      rw [below, if_pos hb, List.find?_cons, hlast, hib]
      simp [valueAt, hlast]
    · -- the chain stays among the new nodes before this one
      have hno : inBucket key hash xs (hash (key y)) ys.length = false := by
        by_contra hin
        have hin : inBucket key hash xs (hash (key y)) ys.length = true := by simpa using hin
        obtain ⟨x, hx, -⟩ := (inBucket_iff key hash).1 hin
        have hlt := (List.getElem?_eq_some_iff.1 hx).1
        rw [min_eq_left (by omega), below, if_pos hin] at hl
        exact hself (List.cons.inj hl).1.symm
      have hnone : (below (inBucket key hash (ys ++ [y]) b) (i + 1)).find?
          (fun i => key (pool i).val = key y) = none := by
        rw [List.find?_eq_none]
        intro k hk
        have hk : k < ys.length := by have := (mem_below.1 hk).1; omega
        have hget : (ys ++ [y])[k]? = some ys[k] := by
          rw [List.getElem?_append_left hk, List.getElem?_eq_getElem hk]
        rw [h.new.val_eq hget]
        have hne : key ys[k] ≠ key y := fun heq =>
          hys (List.mem_map.2 ⟨ys[k], List.getElem_mem hk, heq⟩)
        simpa using hne
      rw [hnone, hno]
      rfl

/-- **What a search in the older table finds** for the key of the node just written: the old
value if its node is further on in the pool, or else possibly the new node itself. -/
theorem Refilling.find_prev {y : α} (h : Refilling key hash pool prev cur xs (ys ++ [y]))
    (hxs : (xs.map key).Nodup) (hys : key y ∉ ys.map key) {fuel : Nat}
    (hfuel : xs.length ≤ fuel) (hnew : ys.length < fuel) :
    valueAt pool (findFrom key pool (key y) fuel (prev (hash (key y)))) =
      ((xs.drop (ys.length + 1)).find? (fun x => key x = key y)).or
        (if inBucket key hash xs (hash (key y)) ys.length then some y else none) := by
  cases hfind : (xs.drop (ys.length + 1)).find? (fun x => key x = key y) with
  | none =>
    refine h.find_prev_new hys (fun x hx => ?_) hfuel hnew
    simpa using List.find?_eq_none.1 hfind x hx
  | some x =>
    have hkey : key x = key y := by simpa using List.find?_some hfind
    obtain ⟨i, hi⟩ := List.mem_iff_getElem?.1 (List.mem_of_find?_eq_some hfind)
    rw [List.getElem?_drop] at hi
    have hold := h.find_prev_old hxs hi (by simp) hfuel
    rw [hkey] at hold
    exact hold

/-- Going through every chain of the older table, and leaving out what the newer table has, one
meets exactly the old values that have not been overwritten. -/
theorem Refilling.prev_chains_perm (h : Refilling key hash pool prev cur xs ys) {fuel : Nat}
    (hfuel : xs.length ≤ fuel) (hfuel' : ys.length ≤ fuel) (size : Nat)
    (hsize : ∀ x ∈ xs, hash (key x) < size) :
    ((((List.range size).flatMap fun b => chain pool fuel (prev b)).filter
        fun i => key (pool i).val ∉ ys.map key).map fun i => (pool i).val).Perm
      ((xs.drop ys.length).filter fun x => key x ∉ ys.map key) := by
  have hchain (b : Nat) : (chain pool fuel (prev b)).filter
      (fun i => key (pool i).val ∉ ys.map key) =
        ((below (inBucket key hash xs b) xs.length).filter (ys.length ≤ ·)).filter
          fun i => key (pool i).val ∉ ys.map key := by
    rw [h.chain_prev b hfuel, List.filter_append]
    have hnone : (chain pool fuel (below (inBucket key hash xs b)
        (min ys.length xs.length)).head?).filter (fun i => key (pool i).val ∉ ys.map key) = [] := by
      rw [List.filter_eq_nil_iff]
      intro i hi
      simpa using List.mem_map_of_mem (h.chain_new_mem hfuel' hi)
    rw [hnone, List.append_nil]
  have hindices : ((List.range size).flatMap fun b =>
      (below (inBucket key hash xs b) xs.length).filter (ys.length ≤ ·)).Perm
        (List.range' ys.length (xs.length - ys.length)) := by
    refine (List.perm_ext_iff_of_nodup ?_ List.nodup_range').2 fun i => ?_
    · refine List.nodup_flatMap.2 ⟨fun b _ => (nodup_below _ _).filter _, ?_⟩
      refine List.nodup_range.imp fun {b c} hbc i hb hc => hbc ?_
      obtain ⟨x, hx, hxb⟩ := (inBucket_iff key hash).1 (mem_below.1 (List.mem_filter.1 hb).1).2
      obtain ⟨z, hz, hzc⟩ := (inBucket_iff key hash).1 (mem_below.1 (List.mem_filter.1 hc).1).2
      rw [hx, Option.some.injEq] at hz
      rw [← hxb, ← hzc, hz]
    · simp only [List.mem_flatMap, List.mem_range, List.mem_filter, mem_below, List.mem_range'_1,
        decide_eq_true_eq]
      constructor
      · rintro ⟨b, -, ⟨hi, -⟩, hle⟩
        exact ⟨hle, by omega⟩
      · rintro ⟨hle, hi⟩
        have hlt : i < xs.length := by omega
        have hx : xs[i]? = some xs[i] := List.getElem?_eq_getElem hlt
        have hbucket := (inBucket_iff key hash).2 ⟨_, hx, rfl⟩
        exact ⟨_, hsize _ (List.getElem_mem hlt), ⟨hlt, hbucket⟩, hle⟩
  have hvals : (List.range' ys.length (xs.length - ys.length)).map (fun i => (pool i).val) =
      xs.drop ys.length := by
    refine List.ext_getElem (by simp) fun k hk hk' => ?_
    have hlt : ys.length + k < xs.length := by simp at hk'; omega
    rw [List.getElem_map, List.getElem_range', List.getElem_drop, one_mul]
    exact (h.old _ hlt (by omega) _ (List.getElem?_eq_getElem hlt)).1
  rw [List.filter_flatMap]
  simp only [hchain]
  rw [← List.filter_flatMap, ← hvals, List.filter_map]
  exact (hindices.filter _).map _

end

end

/-! ## Both tables and their pool -/

/-- The pool, how far it has been refilled, and the heads of the two tables. -/
structure Tables (α : Type) where
  pool : Pool α
  poolIdx : Nat
  current : Heads
  previous : Heads

namespace Tables

variable {α κ : Type}

/-- All nodes hold `zero`; the tables are empty. -/
def init (zero : α) : Tables α where
  pool _ := ⟨zero, none⟩
  poolIdx := 0
  current _ := none
  previous _ := none

/-- The current table becomes the previous one, and the pool is filled from the start again. -/
def swap (t : Tables α) : Tables α :=
  { t with previous := t.current, current := fun _ => none, poolIdx := 0 }

section

variable (key : α → κ) (hash : κ → Nat)

/-- Takes the next node for `x` and puts it into the current table. -/
def add (t : Tables α) (x : α) : Tables α :=
  { t with
    pool := addNode key hash t.pool t.current t.poolIdx x
    poolIdx := t.poolIdx + 1
    current := addHead key hash t.current t.poolIdx x }

/-- Between two rounds: the current table holds `xs`. -/
def Settled (t : Tables α) (xs : List α) : Prop := Holds key hash t.pool t.current xs

/-- Since `start` the first nodes of the pool have got the values `ys`; the others have kept
theirs. -/
structure Written (start t : Tables α) (ys : List α) : Prop where
  poolIdx_eq : t.poolIdx = ys.length
  new : ∀ i y, ys[i]? = some y → (t.pool i).val = y
  old : ∀ i, ys.length ≤ i → (t.pool i).val = (start.pool i).val

/-- In a round: the previous table held `xs`, the current one holds `ys` so far. -/
structure Round (t : Tables α) (xs ys : List α) : Prop where
  refilling : Refilling key hash t.pool t.previous t.current xs ys
  poolIdx_eq : t.poolIdx = ys.length

end

variable {key : α → κ} {hash : κ → Nat} {t : Tables α} {xs ys : List α}

theorem settled_init (zero : α) : Settled key hash (init zero) [] where
  placed i hi := absurd hi (by simp)
  heads_eq b := by simp [init, below]
  descending i k hk := by simp [init] at hk

theorem Settled.swap (h : t.Settled key hash xs) : t.swap.Round key hash xs [] :=
  ⟨h.start, rfl⟩

theorem Round.add (h : t.Round key hash xs ys) (y : α) :
    (t.add key hash y).Round key hash xs (ys ++ [y]) where
  refilling := by
    have hadd := h.refilling.add y
    rw [← h.poolIdx_eq] at hadd
    exact hadd
  poolIdx_eq := by simp [Tables.add, h.poolIdx_eq]

theorem written_swap (start : Tables α) : Written start start.swap [] where
  poolIdx_eq := rfl
  new i y hy := absurd hy (by simp)
  old _ _ := rfl

theorem Written.add {start : Tables α} (h : Written start t ys) (y : α) :
    Written start (t.add key hash y) (ys ++ [y]) where
  poolIdx_eq := by simp [Tables.add, h.poolIdx_eq]
  new i y' hy' := by
    rw [Tables.add, addNode, h.poolIdx_eq]
    by_cases hi : i = ys.length
    · subst hi
      rw [List.getElem?_concat_length, Option.some.injEq] at hy'
      simp [hy']
    · have hlt : i < ys.length := by
        have hle := (List.getElem?_eq_some_iff.1 hy').1
        rw [List.length_append, List.length_singleton] at hle
        omega
      rw [List.getElem?_append_left hlt] at hy'
      simp only [Function.update_of_ne hi]
      exact h.new i y' hy'
  old i hi := by
    rw [List.length_append, List.length_singleton] at hi
    have hne : i ≠ ys.length := by omega
    rw [Tables.add, addNode, h.poolIdx_eq]
    simp only [Function.update_of_ne hne]
    exact h.old i (by omega)

theorem Written.values {start : Tables α} (h : Written start t ys) :
    (List.range t.poolIdx).map (fun i => (t.pool i).val) = ys := by
  refine List.ext_getElem (by simp [h.poolIdx_eq]) fun i _ hi => ?_
  rw [List.getElem_map, List.getElem_range]
  exact h.new i _ (List.getElem?_eq_getElem hi)

theorem Round.settled (h : t.Round key hash xs ys) : t.Settled key hash ys := h.refilling.new

end Tables

end PoolTable
