import Mathlib.Data.List.Dedup
import Mathlib.Data.List.Induction
import Mathlib.Data.List.Nodup

/-!
# First sightings

Somebody is sighted in scan after scan, and a table keeps the first sighting under each key. The
table has room for so many, and nothing is ever taken out of it. That is enough to know since when
somebody has been there, as long as a key never comes to stand for somebody else, and the table
does not overflow.
-/

namespace FirstSeen

variable {σ κ ι : Type} [DecidableEq ι] {key : σ → κ} {who : σ → ι}

/-! ## Since when -/

/-- The sighting with which a presence began that has lasted until `s`, in the scans before it, the
latest first. -/
def first (who : σ → ι) (s : σ) : List (List σ) → σ
  | [] => s
  | scan :: earlier =>
    match scan.find? fun s' => who s' = who s with
    | some s' => first who s' earlier
    | none => s

section

variable (hkey : ∀ s s', who s = who s' → key s = key s')

include hkey

omit [DecidableEq ι] in
/-- Nobody is sighted twice in a scan. -/
theorem eq_of_who {scan : List σ} (hdistinct : (scan.map key).Nodup) {s s' : σ} (hs : s ∈ scan)
    (hs' : s' ∈ scan) (hwho : who s = who s') : s = s' :=
  List.inj_on_of_nodup_map hdistinct hs hs' (hkey s s' hwho)

/-- Somebody who was there in the scan before goes back as far as there. -/
theorem first_of_there {earlier : List (List σ)} {s s' : σ}
    (hdistinct : ((earlier.headD []).map key).Nodup) (hthere : s' ∈ earlier.headD [])
    (hwho : who s' = who s) : first who s earlier = first who s' earlier.tail := by
  cases earlier with
  | nil => cases hthere
  | cons last earlier =>
    have hfind : last.find? (fun r => who r = who s) = some s' := by
      cases h : last.find? fun r => who r = who s with
      | none => exact absurd (List.find?_eq_none.1 h s' hthere) (by simpa using hwho)
      | some r =>
        have hr : who r = who s := by simpa using List.find?_some h
        rw [eq_of_who hkey hdistinct (List.mem_of_find?_eq_some h) hthere (hr.trans hwho.symm)]
    rw [first, hfind]
    rfl

omit hkey in
theorem first_of_absent {earlier : List (List σ)} {s : σ}
    (h : ∀ s' ∈ earlier.headD [], who s' ≠ who s) : first who s earlier = s := by
  cases earlier with
  | nil => rfl
  | cons last earlier =>
    have hnone : last.find? (fun r => who r = who s) = none :=
      List.find?_eq_none.2 fun r hr => by simpa using h r hr
    rw [first, hnone]

/-- `s₀` is the first sighting of somebody who was there in the last `m + 1` scans, and not in the
one before those. -/
theorem first_eq {scans : List (List σ)} (hdistinct : ∀ scan ∈ scans, (scan.map key).Nodup)
    {s s₀ : σ} {m : Nat} (hs : s ∈ scans.headD [])
    (hthere : ∀ j ≤ m, ∃ r ∈ scans.getD j [], who r = who s)
    (hbefore : ∀ r ∈ scans.getD (m + 1) [], who r ≠ who s)
    (hs₀ : s₀ ∈ scans.getD m []) (hwho : who s₀ = who s) : first who s scans.tail = s₀ := by
  induction m generalizing s scans with
  | zero =>
    cases scans with
    | nil => cases hs
    | cons scan earlier =>
      have hsame : s₀ = s := eq_of_who hkey (hdistinct scan List.mem_cons_self) hs₀ hs hwho
      rw [hsame]
      refine first_of_absent fun r hr => hbefore r ?_
      cases earlier with
      | nil => cases hr
      | cons last earlier => exact hr
  | succ m ih =>
    cases scans with
    | nil => cases hs
    | cons scan earlier =>
      obtain ⟨r, hr, hrwho⟩ := hthere 1 (by omega)
      have hlast : r ∈ earlier.headD [] := by
        cases earlier with
        | nil => cases hr
        | cons last earlier => exact hr
      have hrest : ∀ scan ∈ earlier, (scan.map key).Nodup := fun scan hscan =>
        hdistinct scan (List.mem_cons_of_mem _ hscan)
      have hhead : ((earlier.headD []).map key).Nodup := by
        cases earlier with
        | nil => exact List.nodup_nil
        | cons last earlier => exact hrest last List.mem_cons_self
      rw [List.tail_cons, first_of_there hkey hhead hlast hrwho]
      refine ih hrest hlast (fun j hj => ?_) (fun q hq => ?_) hs₀ (hwho.trans hrwho.symm)
      · obtain ⟨q, hq, hqwho⟩ := hthere (j + 1) (by omega)
        exact ⟨q, hq, hqwho.trans hrwho.symm⟩
      · rw [hrwho]
        exact hbefore q hq

end

/-! ## The table -/

variable [DecidableEq κ] (key who) (cap : Nat)

/-- The entry under the key, or a new one if there is room. -/
def findOrCreate (table : List σ) (s : σ) : List σ × Option σ :=
  match table.find? fun t => key t = key s with
  | some t => (table, some t)
  | none => if table.length < cap then (table ++ [s], some s) else (table, none)

/-- The table after a scan. -/
def record (table : List σ) (scan : List σ) : List σ :=
  scan.foldl (fun table s => (findOrCreate key cap table s).1) table

/-- A scan that sees everybody once, gives nobody a key that somebody else had before, and needs
no more room than there is. -/
structure Fresh (earlier : List (List σ)) (scan : List σ) : Prop where
  distinct : (scan.map key).Nodup
  fresh : ∀ s ∈ scan, (∀ s' ∈ earlier.headD [], who s' ≠ who s) →
    ∀ s' ∈ earlier.flatten, key s' ≠ key s
  room : ((scan :: earlier).flatten.map key).dedup.length ≤ cap

/-- The table after these scans, the latest first: it has the first sighting of everybody who is
still there. -/
structure Records (scans : List (List σ)) (table : List σ) : Prop where
  distinct : ((scans.headD []).map key).Nodup
  nodup : (table.map key).Nodup
  seen : ∀ t ∈ table, ∃ s ∈ scans.flatten, key s = key t
  latest : ∀ s ∈ scans.headD [],
    table.find? (fun t => key t = key s) = some (first who s scans.tail)

variable {key who cap}

/-- The entries may keep less than the sightings, as long as they keep the key. -/
theorem findOrCreate_map {τ : Type} {key' : τ → κ} {f : σ → τ} (hkey : ∀ s, key' (f s) = key s)
    (table : List σ) (s : σ) :
    findOrCreate key' cap (table.map f) (f s) =
      ((findOrCreate key cap table s).1.map f, (findOrCreate key cap table s).2.map f) := by
  have hfind : (table.map f).find? (fun t => key' t = key' (f s)) =
      (table.find? fun t => key t = key s).map f := by
    rw [List.find?_map]
    simp only [Function.comp_def, hkey]
  rw [findOrCreate, findOrCreate, hfind]
  cases table.find? fun t => key t = key s with
  | some t => rfl
  | none =>
    rw [List.length_map]
    simp only [Option.map_none]
    split
    · simp
    · rfl

theorem records_nil : Records key who ([] : List (List σ)) [] where
  distinct := List.nodup_nil
  nodup := List.nodup_nil
  seen := nofun
  latest := nofun

theorem record_append (table done : List σ) (s : σ) :
    record key cap table (done ++ [s]) =
      (findOrCreate key cap (record key cap table done) s).1 := by
  rw [record, List.foldl_append]
  rfl

theorem findOrCreate_new {table : List σ} {s : σ} (hnew : ∀ t ∈ table, key t ≠ key s)
    (hroom : table.length < cap) : findOrCreate key cap table s = (table ++ [s], some s) := by
  have hnone : table.find? (fun t => key t = key s) = none :=
    List.find?_eq_none.2 fun t ht => by simpa using hnew t ht
  rw [findOrCreate, hnone]
  simp only
  rw [if_pos hroom]

/-- The table in the middle of a scan, when those in `done` have been sighted. -/
structure Recording (key : σ → κ) (who : σ → ι) (earlier : List (List σ)) (done table : List σ) :
    Prop where
  nodup : (table.map key).Nodup
  seen : ∀ t ∈ table, ∃ s ∈ earlier.flatten ++ done, key s = key t
  before : ∀ s ∈ earlier.headD [],
    table.find? (fun t => key t = key s) = some (first who s earlier.tail)
  sighted : ∀ s ∈ done, table.find? (fun t => key t = key s) = some (first who s earlier)

section

variable {earlier : List (List σ)} {table done rest : List σ} {s : σ}

omit [DecidableEq κ] in
theorem nodup_append_new (h : (table.map key).Nodup) (hnew : ∀ t ∈ table, key t ≠ key s) :
    ((table ++ [s]).map key).Nodup := by
  rw [List.map_append, List.nodup_append]
  refine ⟨h, List.nodup_singleton _, fun k hk k' hk' => ?_⟩
  obtain ⟨t, ht, rfl⟩ := List.mem_map.1 hk
  rw [List.map_singleton, List.mem_singleton] at hk'
  rw [hk']
  exact hnew t ht

/-- A new key finds room. -/
theorem Recording.room (h : Recording key who earlier done table)
    (hfresh : Fresh key who cap earlier (done ++ s :: rest))
    (hnew : ∀ t ∈ table, key t ≠ key s) : table.length < cap := by
  have hsubset : (table ++ [s]).map key ⊆
      (((done ++ s :: rest) :: earlier).flatten.map key).dedup := by
    intro k hk
    obtain ⟨t, ht, rfl⟩ := List.mem_map.1 hk
    rw [List.mem_dedup, List.flatten_cons]
    rcases List.mem_append.1 ht with ht | ht
    · obtain ⟨r, hr, hrkey⟩ := h.seen t ht
      rw [← hrkey]
      refine List.mem_map_of_mem ?_
      simp only [List.mem_append] at hr ⊢
      tauto
    · rw [List.mem_singleton.1 ht]
      exact List.mem_map_of_mem (by simp)
  have hlen := (nodup_append_new h.nodup hnew).length_le_of_subset hsubset
  have hroom := hfresh.room
  rw [List.length_map, List.length_append, List.length_singleton] at hlen
  omega

/-- Somebody is sighted under a key that the table has. -/
theorem Recording.again (h : Recording key who earlier done table)
    (hfind : table.find? (fun t => key t = key s) = some (first who s earlier)) :
    Recording key who earlier (done ++ [s]) table := by
  refine ⟨h.nodup, fun t ht => ?_, h.before, fun r hr => ?_⟩
  · obtain ⟨r, hr, hrkey⟩ := h.seen t ht
    rw [← List.append_assoc]
    exact ⟨r, List.mem_append_left _ hr, hrkey⟩
  · rcases List.mem_append.1 hr with hr | hr
    · exact h.sighted r hr
    · rw [List.mem_singleton.1 hr]
      exact hfind

/-- Somebody is sighted under a new key. -/
theorem Recording.anew (h : Recording key who earlier done table)
    (hnew : ∀ t ∈ table, key t ≠ key s) (hfirst : first who s earlier = s) :
    Recording key who earlier (done ++ [s]) (table ++ [s]) := by
  have hstill {k : κ} {t : σ} (hfind : table.find? (fun t => key t = k) = some t) :
      (table ++ [s]).find? (fun t => key t = k) = some t := by
    rw [List.find?_append, hfind]
    rfl
  refine ⟨nodup_append_new h.nodup hnew, fun t ht => ?_, fun r hr => hstill (h.before r hr),
    fun r hr => ?_⟩
  · rw [← List.append_assoc]
    rcases List.mem_append.1 ht with ht | ht
    · obtain ⟨r, hr, hrkey⟩ := h.seen t ht
      exact ⟨r, List.mem_append_left _ hr, hrkey⟩
    · exact ⟨t, List.mem_append_right _ ht, rfl⟩
  · rcases List.mem_append.1 hr with hr | hr
    · exact hstill (h.sighted r hr)
    · have hnone : table.find? (fun t => key t = key s) = none :=
        List.find?_eq_none.2 fun t ht => by simpa using hnew t ht
      rw [List.mem_singleton.1 hr, List.find?_append, hnone, hfirst]
      simp

/-- Nobody had the key of somebody who was not there in the scan before. -/
theorem Recording.new_of_absent (h : Recording key who earlier done table)
    (hfresh : Fresh key who cap earlier (done ++ s :: rest))
    (habsent : ∀ s' ∈ earlier.headD [], who s' ≠ who s) : ∀ t ∈ table, key t ≠ key s := by
  intro t ht
  obtain ⟨r, hr, hrkey⟩ := h.seen t ht
  rw [← hrkey]
  rcases List.mem_append.1 hr with hr | hr
  · exact hfresh.fresh s (by simp) habsent r hr
  · intro heq
    have hdistinct := hfresh.distinct
    rw [List.map_append, List.nodup_append] at hdistinct
    exact hdistinct.2.2 (key r) (List.mem_map_of_mem hr) (key s) (by simp) heq

variable (hkey : ∀ s s', who s = who s' → key s = key s')
  (hlast : ((earlier.headD []).map key).Nodup)

include hkey hlast

/-- **One sighting more**: the table answers with the first one. -/
theorem Recording.step (h : Recording key who earlier done table)
    (hfresh : Fresh key who cap earlier (done ++ s :: rest)) :
    (findOrCreate key cap table s).2 = some (first who s earlier) ∧
      Recording key who earlier (done ++ [s]) (findOrCreate key cap table s).1 := by
  by_cases hthere : ∃ s' ∈ earlier.headD [], who s' = who s
  · -- the key is the one under which the presence is recorded
    obtain ⟨s', hs', hwho⟩ := hthere
    have hfind : table.find? (fun t => key t = key s) = some (first who s earlier) := by
      rw [first_of_there hkey hlast hs' hwho, ← hkey s' s hwho]
      exact h.before s' hs'
    have hfound : findOrCreate key cap table s = (table, some (first who s earlier)) := by
      rw [findOrCreate, hfind]
    rw [hfound]
    exact ⟨rfl, h.again hfind⟩
  · rw [not_exists] at hthere
    have habsent : ∀ s' ∈ earlier.headD [], who s' ≠ who s := fun s' hs' hwho =>
      hthere s' ⟨hs', hwho⟩
    have hfirst := first_of_absent habsent
    have hnew := h.new_of_absent hfresh habsent
    rw [findOrCreate_new hnew (h.room hfresh hnew), hfirst]
    exact ⟨rfl, h.anew hnew hfirst⟩

/-- The table in the middle of a scan. -/
theorem Records.recording (h : Records key who earlier table)
    (hfresh : Fresh key who cap earlier (done ++ rest)) :
    Recording key who earlier done (record key cap table done) := by
  induction done using List.reverseRecOn generalizing rest with
  | nil =>
    refine ⟨h.nodup, fun t ht => ?_, h.latest, nofun⟩
    obtain ⟨s, hs, hskey⟩ := h.seen t ht
    exact ⟨s, List.mem_append_left _ hs, hskey⟩
  | append_singleton done s ih =>
    rw [List.append_assoc] at hfresh
    rw [record_append]
    exact ((ih hfresh).step hkey hlast hfresh).2

end

section

variable {earlier : List (List σ)} {table scan : List σ}
  (hkey : ∀ s s', who s = who s' → key s = key s')

include hkey

/-- **The answer for each sighting of a scan** is the first sighting of the presence. -/
theorem Records.find {done rest : List σ} {s : σ} (h : Records key who earlier table)
    (hfresh : Fresh key who cap earlier (done ++ s :: rest)) :
    (findOrCreate key cap (record key cap table done) s).2 = some (first who s earlier) :=
  ((h.recording hkey h.distinct hfresh).step hkey h.distinct hfresh).1

/-- **One scan more.** -/
theorem Records.step (h : Records key who earlier table)
    (hfresh : Fresh key who cap earlier scan) :
    Records key who (scan :: earlier) (record key cap table scan) := by
  have hwhole : Fresh key who cap earlier (scan ++ []) := by rwa [List.append_nil]
  have hscan := h.recording hkey h.distinct hwhole
  refine ⟨hfresh.distinct, hscan.nodup, fun t ht => ?_, hscan.sighted⟩
  obtain ⟨s, hs, hskey⟩ := hscan.seen t ht
  rw [List.flatten_cons]
  exact ⟨s, List.mem_append.2 (List.mem_append.1 hs).symm, hskey⟩

end

/-! ## The first sighting of all

If a key never stands for two, presences do not matter: what is recorded under a key is the first
that was ever sighted under it. -/

section

variable {seen done table : List σ} {s : σ}

/-- What a table has recorded that has had room for everything sighted so far. -/
structure RecordsAll (key : σ → κ) (seen table : List σ) : Prop where
  nodup : (table.map key).Nodup
  subset : table ⊆ seen
  find : ∀ k, table.find? (fun t => key t = k) = seen.find? fun t => key t = k

theorem RecordsAll.room (h : RecordsAll key done table)
    (hroom : ((done ++ [s]).map key).dedup.length ≤ cap) (hnew : ∀ t ∈ table, key t ≠ key s) :
    table.length < cap := by
  have hsubset : (table ++ [s]).map key ⊆ ((done ++ [s]).map key).dedup := by
    intro k hk
    obtain ⟨t, ht, rfl⟩ := List.mem_map.1 hk
    rw [List.mem_dedup]
    refine List.mem_map_of_mem ?_
    rcases List.mem_append.1 ht with ht | ht
    · exact List.mem_append_left _ (h.subset ht)
    · exact List.mem_append_right _ ht
  have hlen := (nodup_append_new h.nodup hnew).length_le_of_subset hsubset
  rw [List.length_map, List.length_append, List.length_singleton] at hlen
  omega

theorem find?_append_same (table : List σ) (s : σ) :
    (table ++ [s]).find? (fun t => key t = key s) =
      some ((table.find? fun t => key t = key s).getD s) := by
  rw [List.find?_append]
  cases table.find? fun t => key t = key s with
  | some t => rfl
  | none => simp

theorem find?_append_other {k : κ} (table : List σ) (hk : key s ≠ k) :
    (table ++ [s]).find? (fun t => key t = k) = table.find? fun t => key t = k := by
  rw [List.find?_append, List.find?_cons_of_neg (by simpa using hk)]
  simp

/-- One sighting more. -/
theorem RecordsAll.step (h : RecordsAll key done table)
    (hroom : ((done ++ [s]).map key).dedup.length ≤ cap) :
    (findOrCreate key cap table s).2 = (done ++ [s]).find? (fun t => key t = key s) ∧
      RecordsAll key (done ++ [s]) (findOrCreate key cap table s).1 := by
  have hsubset : done ⊆ done ++ [s] := List.subset_append_left _ _
  cases hfind : table.find? fun t => key t = key s with
  | some t =>
    have hdone : done.find? (fun t => key t = key s) = some t := by rw [← h.find, hfind]
    have hfound : findOrCreate key cap table s = (table, some t) := by rw [findOrCreate, hfind]
    rw [hfound, find?_append_same, hdone]
    refine ⟨rfl, h.nodup, List.Subset.trans h.subset hsubset, fun k => ?_⟩
    by_cases hk : key s = k
    · rw [← hk, find?_append_same, hfind, hdone]
      rfl
    · rw [find?_append_other done hk, h.find]
  | none =>
    have hnew : ∀ t ∈ table, key t ≠ key s := by simpa using hfind
    have hdone : done.find? (fun t => key t = key s) = none := by rw [← h.find, hfind]
    rw [findOrCreate_new hnew (h.room hroom hnew), find?_append_same, hdone]
    refine ⟨rfl, nodup_append_new h.nodup hnew, ?_, fun k => ?_⟩
    · exact List.append_subset.2 ⟨List.Subset.trans h.subset hsubset, List.subset_append_right _ _⟩
    · by_cases hk : key s = k
      · rw [← hk, find?_append_same, find?_append_same, hfind, hdone]
      · rw [find?_append_other table hk, find?_append_other done hk, h.find]

theorem dedup_length_mono (key : σ → κ) {seen more : List σ} (h : seen ⊆ more) :
    (seen.map key).dedup.length ≤ (more.map key).dedup.length :=
  (List.nodup_dedup _).length_le_of_subset fun _ hk =>
    List.mem_dedup.2 (List.map_subset key h (List.mem_dedup.1 hk))

/-- The table after any number of sightings. -/
theorem recordsAll (hroom : (seen.map key).dedup.length ≤ cap) :
    RecordsAll key seen (record key cap [] seen) := by
  induction seen using List.reverseRecOn with
  | nil => exact ⟨List.nodup_nil, List.Subset.refl _, fun k => rfl⟩
  | append_singleton seen s ih =>
    rw [record_append]
    have hbefore := dedup_length_mono key (List.subset_append_left seen [s])
    exact ((ih (Nat.le_trans hbefore hroom)).step hroom).2

/-- **The answer** is the first sighting under the key. -/
theorem findOrCreate_first (hroom : ((done ++ [s]).map key).dedup.length ≤ cap) :
    (findOrCreate key cap (record key cap [] done) s).2 =
      (done ++ [s]).find? fun t => key t = key s := by
  have hbefore := dedup_length_mono key (List.subset_append_left done [s])
  exact ((recordsAll (Nat.le_trans hbefore hroom)).step hroom).1

omit [DecidableEq ι] in
theorem find?_of_nodup {table : List σ} (h : (table.map key).Nodup) {s : σ} (hs : s ∈ table) :
    table.find? (fun t => key t = key s) = some s := by
  cases hfind : table.find? fun t => key t = key s with
  | none => exact absurd (decide_eq_true rfl) (List.find?_eq_none.1 hfind s hs)
  | some t =>
    have ht : key t = key s := by simpa using List.find?_some hfind
    rw [List.inj_on_of_nodup_map h (List.mem_of_find?_eq_some hfind) hs ht]

/-- Under a key that stands for nobody else, it is the first sighting of the same. -/
theorem find?_key_eq (hkey : ∀ t ∈ seen, key t = key s ↔ who t = who s) :
    seen.find? (fun t => key t = key s) = seen.find? fun t => who t = who s := by
  induction seen with
  | nil => rfl
  | cons t seen ih =>
    obtain ⟨ht, hseen⟩ := List.forall_mem_cons.1 hkey
    simp only [List.find?_cons, ht, ih hseen]

end

end FirstSeen
