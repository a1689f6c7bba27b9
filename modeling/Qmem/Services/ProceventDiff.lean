import Qmem.Services.Procevent

/-!
# Which events a scan adds

The abstract scan is its list of pids, in order. `collect_events` says which events a scan over
`ys` adds after one over `xs`: a fork for each pid that the search in the overwritten table
misses (`Missed`), and an exit for each pid of `xs` whose entry was not overwritten and that is
gone. These are the right events exactly when the two scans begin with the same pids, in places
that the search forgives (`exactEvents_iff`).
-/

namespace Qmem

open CLib PoolTable

namespace Procevent

/-- The search for the pid `y`, at position `j` of a scan, fails in the table of the scan `xs`. -/
def Missed (xs : List Int32) (j : Nat) (y : Int32) : Prop :=
  y ∉ xs.drop (j + 1) ∧ ∀ x ∈ xs[j]?, hashPid x ≠ hashPid y

instance (xs : List Int32) (j : Nat) (y : Int32) : Decidable (Missed xs j y) :=
  inferInstanceAs (Decidable (_ ∧ _))

/-- The pids a scan over `ys` reports as forked after one over `xs`. -/
def forkedPids (xs ys : List Int32) : List Int32 :=
  (ys.zipIdx.filter fun y => Missed xs y.2 y.1).map Prod.fst

/-- The pids it reports as exited. -/
def exitedPids (xs ys : List Int32) : List Int32 := (xs.drop ys.length).filter (· ∉ ys)

def ProcEvent.tag (e : ProcEvent) : ProcEventType × Int32 := (e.type, e.pid)

def tags (forked exited : List Int32) : List (ProcEventType × Int32) :=
  forked.map (.fork, ·) ++ exited.map (.exit, ·)

theorem forkedPids_append (xs ys : List Int32) (y : Int32) :
    forkedPids xs (ys ++ [y]) =
      forkedPids xs ys ++ if Missed xs ys.length y then [y] else [] := by
  rw [forkedPids, List.zipIdx_append, List.filter_append, List.map_append, ← forkedPids]
  congr 1
  by_cases h : Missed xs ys.length y <;> simp [h]

/-! ## Counters -/

def tally (added : List ProcEvent) (c : Counters) : Counters :=
  added.foldl (fun c e => c.count e.type) c

theorem tally_append (es fs : List ProcEvent) (c : Counters) :
    tally (es ++ fs) c = tally fs (tally es c) := List.foldl_append

/-- The counters grow by the numbers of events. -/
theorem tally_eq (added : List ProcEvent) (c : Counters) :
    tally added c = {
      forks := c.forks + UInt64.ofNat ((added.map ProcEvent.type).count .fork)
      execs := c.execs + UInt64.ofNat ((added.map ProcEvent.type).count .exec)
      exits := c.exits + UInt64.ofNat ((added.map ProcEvent.type).count .exit) } := by
  induction added generalizing c with
  | nil => simp [tally]
  | cons e es ih =>
    rw [tally, List.foldl_cons, ← tally, ih]
    cases h : e.type <;>
      simp [Counters.count, h, UInt64.ofNat_add, UInt64.add_assoc, UInt64.add_comm]

/-! ## A pass over /proc -/

/-- The invariant of the pass, after a scan of the pids `xs`; `c` are the counters before it. -/
structure Scanning (seen : Bool) (xs ys : List Int32) (c : Counters) (s : Collecting) :
    Prop where
  round : ∃ es fs : List PidEntry, es.map PidEntry.pid = xs ∧ fs.map PidEntry.pid = ys ∧
    s.priv.tables.Round PidEntry.pid hashPid es fs
  hasPrevious : s.priv.hasPrevious = seen
  added : s.added.map ProcEvent.tag = if seen then tags (forkedPids xs ys) [] else []
  counters : s.priv.counters = tally s.added c

/-- What the search in the older table says of an entry that has just been stored. -/
theorem findPid_previous_eq_none (priv : ProceventPriv) {es fs : List PidEntry} {e : PidEntry}
    (h : priv.tables.Round PidEntry.pid hashPid es (fs ++ [e]))
    (hes : (es.map PidEntry.pid).Nodup) (hfs : e.pid ∉ fs.map PidEntry.pid)
    (hlen : es.length ≤ poolSize) (hlen' : fs.length < poolSize) :
    findPid priv priv.tables.previous e.pid = none ↔
      Missed (es.map PidEntry.pid) fs.length e.pid := by
  have hfind : findPid priv priv.tables.previous e.pid = _ :=
    h.refilling.find_prev hes hfs hlen hlen'
  rw [hfind, Option.or_eq_none_iff, List.find?_eq_none, Missed, ← List.map_drop]
  refine and_congr ?_ ?_
  · constructor
    · intro hnone hmem
      obtain ⟨x, hx, hpid⟩ := List.mem_map.1 hmem
      simpa [hpid] using hnone x hx
    · intro hnot x hx
      simpa using fun hpid => hnot (List.mem_map.2 ⟨x, hx, hpid⟩)
  · cases hx : es[fs.length]? with
    | none => simp [inBucket, hx]
    | some x => simp [inBucket, hx]

theorem Scanning.step {seen : Bool} {xs ys : List Int32} {c : Counters} {s : Collecting}
    (h : Scanning seen xs ys c s) (time : Nat → UInt64) (p : PidSample) (hxs : xs.Nodup)
    (hxlen : xs.length ≤ poolSize) (hys : p.pid ∉ ys) (hylen : ys.length < poolSize) :
    (scanPid time s p).2 = true ∧ Scanning seen xs (ys ++ [p.pid]) c (scanPid time s p).1 := by
  obtain ⟨es, fs, rfl, rfl, hround⟩ := h.round
  rw [List.length_map] at hxlen hylen
  have hroom : allocEntry s.priv = some fs.length := by
    rw [allocEntry, hround.poolIdx_eq, if_neg (by omega)]
  unfold scanPid
  simp only [hroom]
  set e : PidEntry := PidEntry.mk p.pid (readCmd p (s.priv.tables.pool fs.length).val.cmd)
  have hadd := hround.add e
  have hmissed := findPid_previous_eq_none (insertPid s.priv e) hadd hxs hys hxlen hylen
  have hround' : ∃ es' fs' : List PidEntry, es'.map PidEntry.pid = es.map PidEntry.pid ∧
      fs'.map PidEntry.pid = fs.map PidEntry.pid ++ [p.pid] ∧
        (insertPid s.priv e).tables.Round PidEntry.pid hashPid es' fs' :=
    ⟨es, fs ++ [e], rfl, by simp [e], hadd⟩
  have hlen : (fs.map PidEntry.pid).length = fs.length := List.length_map _
  split
  · rename_i hfork
    have hseen : seen = true := h.hasPrevious.symm.trans hfork.1
    refine ⟨rfl, hround', h.hasPrevious, ?_, ?_⟩
    · rw [if_pos hseen, forkedPids_append, hlen, if_pos (hmissed.1 hfork.2)]
      simp only [Collecting.addEvent, List.map_append, h.added, if_pos hseen, tags]
      simp [ProcEvent.tag, e]
    · simp only [Collecting.addEvent, tally_append, ← h.counters]
      rfl
  · rename_i hfork
    refine ⟨rfl, hround', h.hasPrevious, ?_, h.counters⟩
    cases hseen : seen with
    | false => simpa [hseen] using h.added
    | true =>
      have hprev : (insertPid s.priv e).hasPrevious = true := h.hasPrevious.trans hseen
      have hnot := fun hm => hfork ⟨hprev, hmissed.2 hm⟩
      rw [if_pos rfl, forkedPids_append, hlen, if_neg hnot, List.append_nil]
      simpa [hseen] using h.added

theorem Scanning.iterate {seen : Bool} {xs ys : List Int32} {c : Counters} {s : Collecting}
    (h : Scanning seen xs ys c s) (time : Nat → UInt64) (ps : List PidSample) (hxs : xs.Nodup)
    (hxlen : xs.length ≤ poolSize) (hys : (ys ++ ps.map PidSample.pid).Nodup)
    (hylen : (ys ++ ps.map PidSample.pid).length ≤ poolSize) (count : Nat) :
    Scanning seen xs (ys ++ ps.map PidSample.pid) c (iteratePids (scanPid time) ps s count).1 := by
  induction ps generalizing s ys count with
  | nil => simpa [iteratePids] using h
  | cons p ps ih =>
    rw [List.map_cons, List.append_cons] at hys hylen ⊢
    have hnew : p.pid ∉ ys := by
      have hfront := (List.nodup_append.1 hys).1
      rw [List.nodup_append] at hfront
      intro hmem
      exact hfront.2.2 p.pid hmem p.pid (by simp) rfl
    obtain ⟨hgo, hnext⟩ := h.step time p hxs hxlen hnew
      (by simp only [List.length_append, List.length_singleton] at hylen; omega)
    rw [iteratePids_go hgo]
    exact ih hnext hys hylen (count + 1)

/-! ## The pass over the older table -/

/-- What the pass adds for the entries `is`, whose tables it does not touch. -/
theorem foldl_exitPid (time : Nat → UInt64) (is : List Nat) (s : Collecting) :
    let s' := is.foldl (exitPid time) s
    s'.priv.tables = s.priv.tables ∧ s'.priv.hasPrevious = s.priv.hasPrevious ∧
      s'.added.map ProcEvent.tag = s.added.map ProcEvent.tag ++
        (is.filter fun i => findPid s.priv s.priv.tables.current
          (s.priv.tables.pool i).val.pid = none).map
            fun i => (.exit, (s.priv.tables.pool i).val.pid) := by
  induction is generalizing s with
  | nil => simp
  | cons i is ih =>
    rw [List.foldl_cons]
    obtain ⟨htables, hprev, hadded⟩ := ih (exitPid time s i)
    have hfind (hash : Heads) (pid : Int32) :
        findPid (exitPid time s i).priv hash pid = findPid s.priv hash pid := by
      unfold exitPid
      dsimp only
      split <;> rfl
    have hkeep : (exitPid time s i).priv.tables = s.priv.tables ∧
        (exitPid time s i).priv.hasPrevious = s.priv.hasPrevious := by
      unfold exitPid
      dsimp only
      split <;> exact ⟨rfl, rfl⟩
    simp only [hfind, hkeep.1] at htables hadded
    refine ⟨htables, hprev.trans hkeep.2, ?_⟩
    rw [hadded]
    unfold exitPid
    dsimp only
    split
    · rename_i hnone
      rw [List.filter_cons_of_pos (by simpa using hnone)]
      simp [Collecting.addEvent, ProcEvent.tag]
    · rename_i hsome
      rw [List.filter_cons_of_neg (by simpa using hsome)]

theorem foldl_exitPid_counters (time : Nat → UInt64) (is : List Nat) (c : Counters)
    {s : Collecting} (h : s.priv.counters = tally s.added c) :
    (is.foldl (exitPid time) s).priv.counters = tally (is.foldl (exitPid time) s).added c := by
  induction is generalizing s with
  | nil => exact h
  | cons i is ih =>
    rw [List.foldl_cons]
    refine ih ?_
    unfold exitPid
    dsimp only
    split
    · simp only [Collecting.addEvent, tally_append, ← h]
      rfl
    · exact h

theorem exits_perm {es fs : List PidEntry} {priv : ProceventPriv}
    (h : priv.tables.Round PidEntry.pid hashPid es fs) (hlen : es.length ≤ poolSize)
    (hlen' : fs.length ≤ poolSize) :
    (((prevEntries priv).filter fun i => findPid priv priv.tables.current
      (priv.tables.pool i).val.pid = none).map fun i => (priv.tables.pool i).val.pid).Perm
        (exitedPids (es.map PidEntry.pid) (fs.map PidEntry.pid)) := by
  have hfind (pid : Int32) : findPid priv priv.tables.current pid = none ↔
      pid ∉ fs.map PidEntry.pid := by
    have hsome := h.settled.find_isSome_iff pid hlen'
    rw [← Option.isNone_iff_eq_none, findPid, Option.isNone_map, ← Option.not_isSome,
      Bool.not_eq_true', ← Bool.not_eq_true, List.mem_map, hsome]
  have hperm := h.refilling.prev_chains_perm hlen hlen' hashSize
    fun x _ => Nat.mod_lt _ (by decide)
  have hpids := hperm.map PidEntry.pid
  rw [List.map_map] at hpids
  have hgone : exitedPids (es.map PidEntry.pid) (fs.map PidEntry.pid) =
      ((es.drop fs.length).filter fun x => x.pid ∉ fs.map PidEntry.pid).map PidEntry.pid := by
    rw [exitedPids, List.length_map, ← List.map_drop, List.filter_map]
    rfl
  rw [hgone]
  simp only [hfind]
  exact hpids

/-! ## Collections and runs -/

/-- The state after a scan of the pids `xs`. -/
structure After (seen : Bool) (xs : List Int32) (priv : ProceventPriv) : Prop where
  settled : ∃ es : List PidEntry, es.map PidEntry.pid = xs ∧
    priv.tables.Settled PidEntry.pid hashPid es
  hasPrevious : priv.hasPrevious = seen

/-- A scan the service is made for. -/
structure ScanOk (xs : List Int32) : Prop where
  distinct : xs.Nodup
  room : xs.length ≤ poolSize

theorem after_init : After false [] proceventInit :=
  ⟨⟨[], rfl, Tables.settled_init _⟩, rfl⟩

/-- **One collection**: the events it adds, up to their order. -/
theorem After.collect {seen : Bool} {xs : List Int32} {priv : ProceventPriv}
    (h : After seen xs priv) (hxs : ScanOk xs) (ps : List PidSample) (time : Nat → UInt64)
    (hps : ScanOk (ps.map PidSample.pid)) :
    let s := (proceventCollect priv ⟨some ps, time⟩).1
    After true (ps.map PidSample.pid) s.priv ∧
      s.priv.counters = tally s.added priv.counters ∧
      (s.added.map ProcEvent.tag).Perm
        (if seen then tags (forkedPids xs (ps.map PidSample.pid))
          (exitedPids xs (ps.map PidSample.pid)) else []) := by
  intro s
  obtain ⟨es₀, hes₀, hsettled⟩ := h.settled
  have hstart : Scanning seen xs [] priv.counters
      { priv := { priv with tables := priv.tables.swap }, added := [] } :=
    ⟨⟨es₀, [], hes₀, rfl, hsettled.swap⟩, h.hasPrevious, by cases seen <;> rfl, rfl⟩
  have hscan := hstart.iterate time ps hxs.distinct hxs.room (by simpa using hps.distinct)
    (by simpa using hps.room) 0
  rw [List.nil_append] at hscan
  set t := (iteratePids (scanPid time) ps
    { priv := { priv with tables := priv.tables.swap }, added := [] } 0).1 with ht
  obtain ⟨es, fs, hes, hfs, hround⟩ := hscan.round
  have hs : s = { (if t.priv.hasPrevious then (prevEntries t.priv).foldl (exitPid time) t else t)
      with priv := { (if t.priv.hasPrevious then (prevEntries t.priv).foldl (exitPid time) t
        else t).priv with hasPrevious := true } } := rfl
  cases hseen : seen with
  | false =>
    rw [hscan.hasPrevious, hseen, if_neg (by decide)] at hs
    rw [hs]
    refine ⟨⟨⟨fs, hfs, hround.settled⟩, rfl⟩, hscan.counters, ?_⟩
    simp [hscan.added, hseen]
  | true =>
    rw [hscan.hasPrevious, hseen, if_pos rfl] at hs
    have hlen : es.length ≤ poolSize := by rw [← List.length_map PidEntry.pid, hes]; exact hxs.room
    have hlen' : fs.length ≤ poolSize := by rw [← List.length_map PidEntry.pid, hfs]; exact hps.room
    have hexits := (exits_perm hround hlen hlen').map (Prod.mk ProcEventType.exit)
    rw [List.map_map, hes, hfs] at hexits
    generalize prevEntries t.priv = is at hs hexits
    obtain ⟨htables, -, hadded⟩ := foldl_exitPid time is t
    have hcounters := foldl_exitPid_counters time is priv.counters hscan.counters
    rw [hs]
    refine ⟨⟨⟨fs, hfs, by simp only [htables]; exact hround.settled⟩, rfl⟩, hcounters, ?_⟩
    simp only [hadded, if_true]
    rw [hscan.added, hseen, if_pos rfl, tags, tags, List.map_nil, List.append_nil]
    exact hexits.append_left _

/-! ## When the events are right -/

/-- The two scans begin with the same pids, as far as the shorter one goes, and each of these
pids of the second scan is further on in the first, or shares a bucket with the pid there. -/
def SameFront (xs ys : List Int32) : Prop :=
  (xs.take (min xs.length ys.length)).Perm (ys.take (min xs.length ys.length)) ∧
    ∀ (j : Nat) (x y : Int32), xs[j]? = some x → ys[j]? = some y →
      hashPid x = hashPid y ∨ y ∈ xs.drop (j + 1)

theorem tags_perm_iff {f f' e e' : List Int32} :
    (tags f e).Perm (tags f' e') ↔ f.Perm f' ∧ e.Perm e' := by
  have hpids (t : ProcEventType) (xs : List Int32) :
      (xs.map (Prod.mk t)).map Prod.snd = xs := by simp [Function.comp_def]
  have hfork (f e : List Int32) :
      ((tags f e).filter fun t => t.1 = .fork) = f.map (Prod.mk .fork) := by
    simp [tags, List.filter_append, List.filter_map, Function.comp_def]
  have hexit (f e : List Int32) :
      ((tags f e).filter fun t => t.1 = .exit) = e.map (Prod.mk .exit) := by
    simp [tags, List.filter_append, List.filter_map, Function.comp_def]
  constructor
  · intro h
    have hf := (h.filter fun t => t.1 = .fork).map Prod.snd
    have he := (h.filter fun t => t.1 = .exit).map Prod.snd
    rw [hfork, hfork, hpids, hpids] at hf
    rw [hexit, hexit, hpids, hpids] at he
    exact ⟨hf, he⟩
  · rintro ⟨hf, he⟩
    exact (hf.map _).append (he.map _)

section

variable {xs ys : List Int32}

theorem mem_forkedPids {y : Int32} :
    y ∈ forkedPids xs ys ↔ ∃ j, ys[j]? = some y ∧ Missed xs j y := by
  simp [forkedPids, List.mem_zipIdx_iff_getElem?]

theorem nodup_forkedPids (hys : ys.Nodup) : (forkedPids xs ys).Nodup := by
  refine List.Nodup.sublist ?_ hys
  have hsub := (List.filter_sublist (l := ys.zipIdx) (p := fun y => Missed xs y.2 y.1)).map Prod.fst
  rwa [List.zipIdx_map_fst] at hsub

theorem index_unique (hxs : xs.Nodup) {i j : Nat} {x : Int32} (hi : xs[i]? = some x)
    (hj : xs[j]? = some x) : i = j :=
  (List.getElem?_inj (List.getElem?_eq_some_iff.1 hi).1 hxs).1 (hi.trans hj.symm)

theorem forks_right_iff (hys : ys.Nodup) :
    (forkedPids xs ys).Perm (ys.filter (· ∉ xs)) ↔
      ∀ j y, ys[j]? = some y → (Missed xs j y ↔ y ∉ xs) := by
  rw [List.perm_ext_iff_of_nodup (nodup_forkedPids hys) (hys.filter _)]
  simp only [mem_forkedPids, List.mem_filter, decide_eq_true_eq]
  constructor
  · intro h j y hy
    have hmem := List.mem_of_getElem? hy
    constructor
    · intro hm
      exact ((h y).1 ⟨j, hy, hm⟩).2
    · intro hnot
      obtain ⟨j', hy', hm⟩ := (h y).2 ⟨hmem, hnot⟩
      rwa [index_unique hys hy hy']
  · intro h y
    constructor
    · rintro ⟨j, hy, hm⟩
      exact ⟨List.mem_of_getElem? hy, (h j y hy).1 hm⟩
    · rintro ⟨hmem, hnot⟩
      obtain ⟨j, hj⟩ := List.mem_iff_getElem?.1 hmem
      exact ⟨j, hj, (h j y hj).2 hnot⟩

theorem exits_right_iff (hxs : xs.Nodup) :
    (exitedPids xs ys).Perm (xs.filter (· ∉ ys)) ↔ ∀ x ∈ xs.take ys.length, x ∈ ys := by
  have hdisjoint := List.disjoint_take_drop hxs (le_refl ys.length)
  rw [exitedPids, List.perm_ext_iff_of_nodup ((hxs.sublist (List.drop_sublist _ _)).filter _)
    (hxs.filter _)]
  simp only [List.mem_filter, decide_eq_true_eq]
  constructor
  · intro h x hx
    by_contra hnot
    exact hdisjoint hx ((h x).2 ⟨List.mem_of_mem_take hx, hnot⟩).1
  · intro h x
    refine ⟨fun hx => ⟨List.mem_of_mem_drop hx.1, hx.2⟩, fun hx => ⟨?_, hx.2⟩⟩
    have hsplit := hx.1
    rw [← List.take_append_drop ys.length xs, List.mem_append] at hsplit
    exact hsplit.resolve_left fun htake => hx.2 (h x htake)

theorem mem_take_iff {l : List Int32} {n : Nat} {x : Int32} :
    x ∈ l.take n ↔ ∃ i < n, l[i]? = some x := by
  rw [List.mem_iff_getElem?]
  constructor
  · rintro ⟨i, hi⟩
    have hlt : i < n := by
      have := (List.getElem?_eq_some_iff.1 hi).1
      rw [List.length_take] at this
      omega
    exact ⟨i, hlt, by rwa [List.getElem?_take_of_lt hlt] at hi⟩
  · rintro ⟨i, hlt, hi⟩
    exact ⟨i, by rwa [List.getElem?_take_of_lt hlt]⟩

/-- What is missed is right exactly when the scans begin alike. -/
theorem sameFront_iff (hxs : xs.Nodup) (hys : ys.Nodup) :
    ((∀ j y, ys[j]? = some y → (Missed xs j y ↔ y ∉ xs)) ∧ ∀ x ∈ xs.take ys.length, x ∈ ys) ↔
      SameFront xs ys := by
  constructor
  · rintro ⟨hforks, hexits⟩
    have hfound {j : Nat} {y : Int32} (hy : ys[j]? = some y) (hmem : y ∈ xs) :
        y ∈ xs.drop (j + 1) ∨ ∃ x, xs[j]? = some x ∧ hashPid x = hashPid y := by
      have hnot : ¬ Missed xs j y := fun hm => (hforks j y hy).1 hm hmem
      rw [Missed, not_and_or, not_not] at hnot
      simpa using hnot
    have hsub : xs.take (min xs.length ys.length) ⊆ ys.take (min xs.length ys.length) := by
      intro x hx
      obtain ⟨i, hi, hxi⟩ := mem_take_iff.1 hx
      have hmem : x ∈ ys := hexits x (mem_take_iff.2 ⟨i, by omega, hxi⟩)
      obtain ⟨j, hj⟩ := List.mem_iff_getElem?.1 hmem
      have hjy := (List.getElem?_eq_some_iff.1 hj).1
      have hjx : j < xs.length := by
        rcases hfound hj (List.mem_of_getElem? hxi) with hdrop | ⟨z, hz, -⟩
        · have := List.length_pos_of_mem hdrop
          rw [List.length_drop] at this
          omega
        · exact (List.getElem?_eq_some_iff.1 hz).1
      exact mem_take_iff.2 ⟨j, by omega, hj⟩
    have hperm : (xs.take (min xs.length ys.length)).Perm (ys.take (min xs.length ys.length)) := by
      have hsubperm := List.subperm_of_subset (hxs.sublist (List.take_sublist _ _)) hsub
      refine hsubperm.perm_of_length_le ?_
      simp only [List.length_take]
      omega
    refine ⟨hperm, fun j x y hx hy => ?_⟩
    have hjx := (List.getElem?_eq_some_iff.1 hx).1
    have hjy := (List.getElem?_eq_some_iff.1 hy).1
    have hmem : y ∈ xs := List.mem_of_mem_take
      (hperm.mem_iff.2 (mem_take_iff.2 ⟨j, by omega, hy⟩))
    rcases hfound hy hmem with hdrop | ⟨z, hz, hhash⟩
    · exact Or.inr hdrop
    · rw [hx, Option.some.injEq] at hz
      exact Or.inl (hz ▸ hhash)
  · rintro ⟨hperm, hplaces⟩
    refine ⟨fun j y hy => ?_, fun x hx => ?_⟩
    · have hjy := (List.getElem?_eq_some_iff.1 hy).1
      constructor
      · rintro ⟨hdrop, hhash⟩ hmem
        have hjx : j < xs.length := by
          by_contra hge
          have hfront : y ∈ xs.take (min xs.length ys.length) := by
            rwa [List.take_of_length_le (by omega)]
          obtain ⟨i, hi, hyi⟩ := mem_take_iff.1 (hperm.mem_iff.1 hfront)
          have := index_unique hys hyi hy
          omega
        have hx := List.getElem?_eq_getElem hjx
        rcases hplaces j _ y hx hy with heq | hlater
        · exact hhash _ hx heq
        · exact hdrop hlater
      · intro hnot
        refine ⟨fun hdrop => hnot (List.mem_of_mem_drop hdrop), fun x hx _ => hnot ?_⟩
        have hjx := (List.getElem?_eq_some_iff.1 hx).1
        exact List.mem_of_mem_take (hperm.mem_iff.2 (mem_take_iff.2 ⟨j, by omega, hy⟩))
    · obtain ⟨i, hi, hxi⟩ := mem_take_iff.1 hx
      have hix := (List.getElem?_eq_some_iff.1 hxi).1
      exact List.mem_of_mem_take (hperm.mem_iff.1 (mem_take_iff.2 ⟨i, by omega, hxi⟩))

end

/-- One fork for each pid that is new, one exit for each pid that is gone, nothing else; and the
counters, `c` before, have grown by these numbers. -/
def ExactEvents (xs ys : List Int32) (c : Counters) (s : Collecting) : Prop :=
  (s.added.map ProcEvent.tag).Perm (tags (ys.filter (· ∉ xs)) (xs.filter (· ∉ ys))) ∧
    s.priv.counters = {
      forks := c.forks + UInt64.ofNat (ys.filter (· ∉ xs)).length
      execs := c.execs
      exits := c.exits + UInt64.ofNat (xs.filter (· ∉ ys)).length }

/-- The counters follow the events. -/
theorem counters_of_tags {s : Collecting} {c : Counters} {forked exited : List Int32}
    (hcounters : s.priv.counters = tally s.added c)
    (htags : (s.added.map ProcEvent.tag).Perm (tags forked exited)) :
    s.priv.counters = {
      forks := c.forks + UInt64.ofNat forked.length
      execs := c.execs
      exits := c.exits + UInt64.ofNat exited.length } := by
  have htypes : (s.added.map ProcEvent.type).Perm
      (List.replicate forked.length .fork ++ List.replicate exited.length .exit) := by
    have hfst := htags.map Prod.fst
    rw [List.map_map] at hfst
    refine hfst.trans (List.Perm.of_eq ?_)
    simp [tags, Function.comp_def, List.map_const']
  rw [hcounters, tally_eq, htypes.count_eq, htypes.count_eq, htypes.count_eq]
  simp [List.count_replicate]

theorem exactEvents_iff {xs ys : List Int32} {c : Counters} {s : Collecting} (hxs : xs.Nodup)
    (hys : ys.Nodup) (hcounters : s.priv.counters = tally s.added c)
    (htags : (s.added.map ProcEvent.tag).Perm (tags (forkedPids xs ys) (exitedPids xs ys))) :
    ExactEvents xs ys c s ↔ SameFront xs ys := by
  rw [← sameFront_iff hxs hys, ← forks_right_iff hys, ← exits_right_iff hxs, ← tags_perm_iff]
  constructor
  · rintro ⟨hperm, -⟩
    exact htags.symm.trans hperm
  · intro hperm
    have hright := htags.trans hperm
    exact ⟨hright, counters_of_tags hcounters hright⟩

/-- A successful pass over /proc, and its clock. -/
abbrev Pass := List PidSample × (Nat → UInt64)

def Pass.pids (p : Pass) : List Int32 := p.1.map PidSample.pid

def Pass.collect (priv : ProceventPriv) (p : Pass) : Collecting :=
  (proceventCollect priv ⟨some p.1, p.2⟩).1

def proceventRun (passes : List Pass) : ProceventPriv :=
  passes.foldl (fun priv p => (Pass.collect priv p).priv) proceventInit

theorem after_run {passes : List Pass} (hok : ∀ p ∈ passes, ScanOk p.pids) {k : Nat} {p : Pass}
    (hp : passes[k]? = some p) : After true p.pids (proceventRun (passes.take (k + 1))) := by
  induction k generalizing p with
  | zero =>
    have hfirst := after_init.collect ⟨List.nodup_nil, Nat.zero_le _⟩ p.1 p.2
      (hok p (List.mem_of_getElem? hp))
    rw [List.take_add_one, hp]
    exact hfirst.1
  | succ k ih =>
    have hk : k < passes.length := by
      have := (List.getElem?_eq_some_iff.1 hp).1
      omega
    have hprev := List.getElem?_eq_getElem hk
    have hnext := (ih hprev).collect (hok _ (List.mem_of_getElem? hprev)) p.1 p.2
      (hok p (List.mem_of_getElem? hp))
    rw [List.take_add_one, hp, proceventRun, List.foldl_append]
    exact hnext.1

/-- **The events of a run**: scan `k + 1` adds exactly the right ones, and the counters grow by
their numbers, exactly when it and scan `k` begin with the same pids in forgiving places. -/
theorem run_events_exact_iff (passes : List Pass) (hok : ∀ p ∈ passes, ScanOk p.pids) (k : Nat)
    (p q : Pass) (hp : passes[k]? = some p) (hq : passes[k + 1]? = some q) :
    ExactEvents p.pids q.pids (proceventRun (passes.take (k + 1))).counters
        (Pass.collect (proceventRun (passes.take (k + 1))) q) ↔
      SameFront p.pids q.pids := by
  have hpok := hok p (List.mem_of_getElem? hp)
  have hqok := hok q (List.mem_of_getElem? hq)
  obtain ⟨-, hcounters, htags⟩ := (after_run hok hp).collect hpok q.1 q.2 hqok
  exact exactEvents_iff hpok.distinct hqok.distinct hcounters htags

/-- A pid 1 that exits while 2, behind it, goes on. -/
def shifted : List Pass := [
  ([{ pid := 1, comm := none }, { pid := 2, comm := none }], fun _ => 0),
  ([{ pid := 2, comm := none }], fun _ => 0)]

theorem shifted_ok : ∀ p ∈ shifted, ScanOk p.pids := by
  intro p hp
  simp only [shifted, List.mem_cons, List.not_mem_nil, or_false] at hp
  rcases hp with rfl | rfl <;> exact ⟨by decide, by decide⟩

theorem run_events_exact_iff_shifted :
    ExactEvents (Pass.pids shifted[0]) (Pass.pids shifted[1])
        (proceventRun (shifted.take 1)).counters
        (Pass.collect (proceventRun (shifted.take 1)) shifted[1]) ↔
      SameFront (Pass.pids shifted[0]) (Pass.pids shifted[1]) :=
  run_events_exact_iff shifted shifted_ok 0 shifted[0] shifted[1] rfl rfl

/-- The exit of 1 is lost: its entry has become that of 2. -/
theorem shifted_events_wrong :
    ¬ ∀ passes : List Pass, (∀ p ∈ passes, ScanOk p.pids) →
      ∀ k p q, passes[k]? = some p → passes[k + 1]? = some q →
        ExactEvents p.pids q.pids (proceventRun (passes.take (k + 1))).counters
          (Pass.collect (proceventRun (passes.take (k + 1))) q) := by
  intro h
  have hexact := h shifted shifted_ok 0 _ _ rfl rfl
  have hp : ScanOk [1, 2] := ⟨by decide, by decide⟩
  have hq : ScanOk [2] := ⟨by decide, by decide⟩
  obtain ⟨-, hcounters, htags⟩ := (after_run shifted_ok (k := 0) rfl).collect hp
    [{ pid := 2, comm := none }] (fun _ => 0) hq
  have hfront := (exactEvents_iff hp.distinct hq.distinct hcounters htags).1 hexact
  have hmem := hfront.1.mem_iff (a := 1)
  revert hmem
  decide

end Procevent

end Qmem
