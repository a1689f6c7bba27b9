import Qmem.Cli.Document

/-!
# `qmemctl top` and `qmemctl slab` (`cli/commands.c`)

Each table is read from its array by a loop that does not know where the array ends: it goes on
to the end of the document, and every object that starts with the right key becomes a row. So a
table is the array exactly when no such object comes after it.

Main result: `top_rows_right_iff`.
-/

namespace Qmem

open CLib Procmem Slabinfo

/-! ## The commands -/

/-- A row under "Top Memory Growers". -/
structure GrowerRow where
  pid : Int64
  rss : Int64
  delta : Int64
  cmd : Bytes
deriving DecidableEq

def GrowerRow.read (pos : Bytes) : GrowerRow where
  pid := jsonGetInt pos (.lit "pid")
  rss := jsonGetInt pos (.lit "rss_kb")
  delta := jsonGetInt pos (.lit "rss_delta_kb")
  cmd := extractString pos (.lit "cmd") 63 (CStr.lit "unknown").bytes

/-- A row under "Top Memory Usage". -/
structure TopRssRow where
  pid : Int64
  rss : Int64
  data : Int64
  cmd : Bytes
deriving DecidableEq

def TopRssRow.read (pos : Bytes) : TopRssRow where
  pid := jsonGetInt pos (.lit "pid")
  rss := jsonGetInt pos (.lit "rss_kb")
  data := jsonGetInt pos (.lit "data_kb")
  cmd := extractString pos (.lit "cmd") 63 (CStr.lit "unknown").bytes

/-- What `cmd_top` prints: the rows of its two tables, if it comes to them. -/
structure TopReport where
  growers : Option (List GrowerRow)
  topRss : Option (List TopRssRow)

/-- `cmd_top`, for the response of the daemon. -/
def cmdTop (response : Bytes) : TopReport :=
  match strstr response (keyPattern (.lit "procmem")) with
  | none => { growers := none, topRss := none }
  | some procmem =>
    match strstr procmem (keyPattern (.lit "top_growers")) with
    | none => { growers := none, topRss := none }
    | some growers =>
      if (strchr growers 0x5b).isNone then { growers := some [], topRss := none }
      else {
        growers := some (arrayRows growers (.lit "pid") GrowerRow.read)
        topRss := (strstr procmem (keyPattern (.lit "top_rss"))).map fun topRss =>
          arrayRows topRss (.lit "pid") TopRssRow.read }

/-- A row under "Top Growers". -/
structure SlabRow where
  name : Bytes
  size : Int64
  delta : Int64
deriving DecidableEq

def SlabRow.read (pos : Bytes) : SlabRow where
  name := extractString pos (.lit "name") 63 (CStr.lit "unknown").bytes
  size := jsonGetInt pos (.lit "size_bytes")
  delta := jsonGetInt pos (.lit "delta_bytes")

/-- `cmd_slab`: the rows of its table, if there is a section. -/
def cmdSlab (response : Bytes) : Option (List SlabRow) :=
  (strstr response (keyPattern (.lit "slabinfo"))).map fun slabinfo =>
    match strstr slabinfo (keyPattern (.lit "top_growers")) with
    | none => []
    | some growers => arrayRows growers (.lit "name") SlabRow.read

/-! ## The row of an entry -/

def GrowerRow.of (e : ProcmemEntry) : GrowerRow where
  pid := e.pid.toInt64
  rss := e.rssKb
  delta := e.rssDeltaKb
  cmd := (shown e.cmd).take 63

def TopRssRow.of (e : ProcmemEntry) : TopRssRow where
  pid := e.pid.toInt64
  rss := e.rssKb
  data := e.dataKb
  cmd := (shown e.cmd).take 63

def SlabRow.of (e : SlabEntry) : SlabRow where
  name := (shown e.name).take 63
  size := e.sizeBytes
  delta := e.deltaBytes

/-! ## The sections -/

/-- From `top_shrinkers` on. -/
def shrinkerCalls (priv : ProcmemPriv) (after : List (JsonCall ℚ)) : List (JsonCall ℚ) :=
  .key (.lit "top_shrinkers") :: (arrayCalls priv.shrinkers growerCalls ++
    .key (.lit "top_rss") :: (arrayCalls priv.topRss topRssCalls ++ .objectEnd :: after))

theorem procmemSnapshot_append (priv : ProcmemPriv) (after : List (JsonCall ℚ)) :
    procmemSnapshot priv ++ after = .objectStart :: .key (.lit "top_growers") ::
      (arrayCalls priv.growers growerCalls ++ shrinkerCalls priv after) := by
  simp [procmemSnapshot, objectCalls, shrinkerCalls]

section

variable {printG : ℚ → CStr} (hprint : ∀ d, 0x22 ∉ (printG d).bytes)

include hprint

theorem GrowerRow.reads : Reads printG growerCalls GrowerRow.read GrowerRow.of := by
  intro e rest hrest
  have hall : (growerCalls e ++ rest).all JsonCall.readable = true := by
    rw [List.all_append, hrest]
    rfl
  have hident := identKeys_of_readable hall
  rw [GrowerRow.read, GrowerRow.of,
    jsonGetInt_int hprint hident rfl (by decide) (v := e.pid.toInt64) rfl,
    jsonGetInt_int hprint hident rfl (by decide) (v := e.rssKb) rfl,
    jsonGetInt_int hprint hident rfl (by decide) (v := e.rssDeltaKb) rfl,
    extractString_value hprint hident rfl (stringKey_of_readable hall rfl) (v := e.cmd) rfl]

theorem TopRssRow.reads : Reads printG topRssCalls TopRssRow.read TopRssRow.of := by
  intro e rest hrest
  have hall : (topRssCalls e ++ rest).all JsonCall.readable = true := by
    rw [List.all_append, hrest]
    rfl
  have hident := identKeys_of_readable hall
  rw [TopRssRow.read, TopRssRow.of,
    jsonGetInt_int hprint hident rfl (by decide) (v := e.pid.toInt64) rfl,
    jsonGetInt_int hprint hident rfl (by decide) (v := e.rssKb) rfl,
    jsonGetInt_int hprint hident rfl (by decide) (v := e.dataKb) rfl,
    extractString_value hprint hident rfl (stringKey_of_readable hall rfl) (v := e.cmd) rfl]

theorem SlabRow.reads : Reads printG changeCalls SlabRow.read SlabRow.of := by
  intro e rest hrest
  have hall : (changeCalls e ++ rest).all JsonCall.readable = true := by
    rw [List.all_append, hrest]
    rfl
  have hident := identKeys_of_readable hall
  rw [SlabRow.read, SlabRow.of,
    extractString_value hprint hident rfl (stringKey_of_readable hall rfl) (v := e.name) rfl,
    jsonGetInt_int hprint hident rfl (by decide) (v := e.sizeBytes) rfl,
    jsonGetInt_int hprint hident rfl (by decide) (v := e.deltaBytes) rfl]

/-- The tables of a snapshot that has a procmem section. -/
theorem cmdTop_document {qsort : Qsort} {now : Int64} {ss post : List ServiceState}
    {priv : ProcmemPriv} (hfind : findSection (.lit "procmem") ss = some (.procmem priv, post)) :
    let after := afterCalls qsort post
    cmdTop (document printG qsort now ss) = {
      growers := some (priv.growers.map GrowerRow.of ++
        (objectsWith (.lit "pid") (shrinkerCalls priv after)).map fun cs =>
          GrowerRow.read (callText printG false cs))
      topRss := some (priv.topRss.map TopRssRow.of ++
        (objectsWith (.lit "pid") after).map fun cs =>
          TopRssRow.read (callText printG false cs)) } := by
  intro after
  have hend : (JsonCall.objectEnd :: after).all JsonCall.readable = true := by
    rw [List.all_cons, readable_afterCalls]
    rfl
  have hrssAll : (.key (.lit "top_rss") ::
      (arrayCalls priv.topRss topRssCalls ++ .objectEnd :: after)).all JsonCall.readable = true :=
    readable_member rfl (all_arrayCalls checksKey_readable fun _ => rfl) hend
  have hshrinkers : (shrinkerCalls priv after).all JsonCall.readable = true :=
    readable_member rfl (all_arrayCalls checksKey_readable fun _ => rfl) hrssAll
  have hsection : sectionCalls qsort (.procmem priv) post = .key (.lit "procmem") ::
      .objectStart :: .key (.lit "top_growers") ::
        (arrayCalls priv.growers growerCalls ++ shrinkerCalls priv after) := by
    rw [← procmemSnapshot_append]
    rfl
  have hgrowers : firstKey (.lit "top_growers") (sectionCalls qsort (.procmem priv) post) =
      some (.key (.lit "top_growers") ::
        (arrayCalls priv.growers growerCalls ++ shrinkerCalls priv after)) := by
    rw [hsection]
    rfl
  have hrss : firstKey (.lit "top_rss") (sectionCalls qsort (.procmem priv) post) =
      some (.key (.lit "top_rss") ::
        (arrayCalls priv.topRss topRssCalls ++ .objectEnd :: after)) := by
    have hno (e : ProcmemEntry) :
        NoKey (.lit "top_rss") (growerCalls e : List (JsonCall ℚ)) := noKey_of_all rfl
    rw [hsection]
    exact (firstKey_append (noKey_arrayCalls hno priv.growers)).trans
      (firstKey_append (noKey_arrayCalls hno priv.shrinkers))
  have hbracket : (strchr (callText printG false (.key (.lit "top_growers") ::
      (arrayCalls priv.growers growerCalls ++ shrinkerCalls priv after))) 0x5b).isNone = false := by
    rw [arrayCalls, List.cons_append, strchr_bracket rfl]
    rfl
  rw [cmdTop, strstr_section_some hprint hfind]
  simp only [strstr_member hprint rfl hgrowers, hbracket, Bool.false_eq_true, if_false,
    strstr_member hprint rfl hrss, Option.map_some]
  rw [arrayRows_array hprint rfl rfl (fun _ _ => rfl) (GrowerRow.reads hprint) (fun _ => rfl)
      hshrinkers,
    arrayRows_array hprint rfl rfl (fun _ _ => rfl) (TopRssRow.reads hprint) (fun _ => rfl) hend]
  rfl

/-- The table of a snapshot that has a slabinfo section. -/
theorem cmdSlab_document {qsort : Qsort} {now : Int64} {ss post : List ServiceState}
    {priv : SlabinfoPriv}
    (hfind : findSection (.lit "slabinfo") ss = some (.slabinfo priv, post)) :
    let after := .key (.lit "top_shrinkers") ::
      (arrayCalls priv.shrinkers changeCalls ++ .objectEnd :: afterCalls qsort post)
    cmdSlab (document printG qsort now ss) =
      some (priv.growers.map SlabRow.of ++
        (objectsWith (.lit "name") after).map fun cs =>
          SlabRow.read (callText printG false cs)) := by
  intro after
  have hafter : after.all JsonCall.readable = true :=
    readable_member rfl (all_arrayCalls checksKey_readable fun _ => rfl) (by
      rw [List.all_cons, readable_afterCalls]
      rfl)
  have hgrowers : firstKey (.lit "top_growers") (sectionCalls qsort (.slabinfo priv) post) =
      some (.key (.lit "top_growers") ::
        (arrayCalls priv.growers changeCalls ++ after)) := by
    simp [sectionCalls, ServiceState.snapshot, slabinfoSnapshot, objectCalls, after]
    rfl
  rw [cmdSlab, strstr_section_some hprint hfind, Option.map_some]
  simp only [strstr_member hprint rfl hgrowers]
  rw [arrayRows_array hprint rfl rfl (fun _ _ => rfl) (SlabRow.reads hprint) (fun _ => rfl) hafter]

end

/-! ## When the rows are the entries -/

/-- The private data of the procmem section of a snapshot. -/
def procmemOf (ss : List ServiceState) : Option ProcmemPriv :=
  match findSection (.lit "procmem") ss with
  | some (.procmem priv, _) => some priv
  | _ => none

def slabinfoOf (ss : List ServiceState) : Option SlabinfoPriv :=
  match findSection (.lit "slabinfo") ss with
  | some (.slabinfo priv, _) => some priv
  | _ => none

/-- The rows of each table are the entries of its array, in order. -/
structure TopRowsRight (printG : ℚ → CStr) (qsort : Qsort) (now : Int64)
    (ss : List ServiceState) : Prop where
  growers : (cmdTop (document printG qsort now ss)).growers =
    (procmemOf ss).map fun priv => priv.growers.map GrowerRow.of
  topRss : (cmdTop (document printG qsort now ss)).topRss =
    (procmemOf ss).map fun priv => priv.topRss.map TopRssRow.of
  slab : cmdSlab (document printG qsort now ss) =
    (slabinfoOf ss).map fun priv => priv.growers.map SlabRow.of

section

variable {printG : ℚ → CStr} (hprint : ∀ d, 0x22 ∉ (printG d).bytes) (qsort : Qsort) (now : Int64)
  (ss : List ServiceState)

theorem append_map_eq_self {α β : Type} {xs : List β} {ys : List α} {f : α → β} :
    xs ++ ys.map f = xs ↔ ys = [] := by
  rw [List.append_right_eq_self, List.map_eq_nil_iff]

include hprint

theorem cmdTop_right_iff :
    ((cmdTop (document printG qsort now ss)).growers =
        ((procmemOf ss).map fun priv => priv.growers.map GrowerRow.of) ∧
      (cmdTop (document printG qsort now ss)).topRss =
        (procmemOf ss).map fun priv => priv.topRss.map TopRssRow.of) ↔
      ∀ priv post, findSection (.lit "procmem") ss = some (.procmem priv, post) →
        priv.shrinkers = [] ∧ priv.topRss = [] ∧ ∀ st ∈ post, ¬ st.Lists qsort (.lit "pid") := by
  cases hfind : findSection (.lit "procmem") ss with
  | none =>
    have hnone := strstr_section_none hprint qsort now rfl rfl hfind
    simp [procmemOf, hfind, cmdTop, hnone]
  | some found =>
    obtain ⟨st, post⟩ := found
    obtain ⟨priv, rfl⟩ := ServiceState.eq_procmem (findSection_name hfind)
    have hmore : objectsWith (.lit "pid") (shrinkerCalls priv (afterCalls qsort post)) = [] ↔
        priv.shrinkers = [] ∧ priv.topRss = [] ∧
          ∀ st ∈ post, ¬ st.Lists qsort (.lit "pid") := by
      rw [← objectsWith_afterCalls]
      refine (objectsWith_array_eq_nil (fun _ _ => rfl) priv.shrinkers).trans
        (and_congr_right fun _ => ?_)
      exact objectsWith_array_eq_nil (fun _ _ => rfl) priv.topRss
    have hpriv : procmemOf ss = some priv := by rw [procmemOf, hfind]
    rw [hpriv, cmdTop_document hprint hfind]
    rw [← hfind, forall_found_iff (fun _ _ h => ServiceState.procmem.inj h) hfind]
    simp only [Option.map_some, Option.some_inj, append_map_eq_self, hmore, objectsWith_afterCalls]
    exact ⟨fun h => h.1, fun h => ⟨h, h.2.2⟩⟩

theorem cmdSlab_right_iff :
    cmdSlab (document printG qsort now ss) =
        ((slabinfoOf ss).map fun priv => priv.growers.map SlabRow.of) ↔
      ∀ priv post, findSection (.lit "slabinfo") ss = some (.slabinfo priv, post) →
        priv.shrinkers = [] ∧ ∀ st ∈ post, ¬ st.Lists qsort (.lit "name") := by
  cases hfind : findSection (.lit "slabinfo") ss with
  | none =>
    have hnone := strstr_section_none hprint qsort now rfl rfl hfind
    simp [slabinfoOf, hfind, cmdSlab, hnone]
  | some found =>
    obtain ⟨st, post⟩ := found
    obtain ⟨priv, rfl⟩ := ServiceState.eq_slabinfo (findSection_name hfind)
    have hmore : objectsWith (.lit "name") (.key (.lit "top_shrinkers") ::
        (arrayCalls priv.shrinkers changeCalls ++ .objectEnd :: afterCalls qsort post)) = [] ↔
          priv.shrinkers = [] ∧ ∀ st ∈ post, ¬ st.Lists qsort (.lit "name") := by
      rw [← objectsWith_afterCalls]
      exact objectsWith_array_eq_nil (fun _ _ => rfl) priv.shrinkers
    have hpriv : slabinfoOf ss = some priv := by rw [slabinfoOf, hfind]
    rw [hpriv, cmdSlab_document hprint hfind]
    rw [← hfind, forall_found_iff (fun _ _ h => ServiceState.slabinfo.inj h) hfind]
    simp only [Option.map_some, Option.some_inj, append_map_eq_self, hmore]

/-- **The rows are the entries exactly when nothing comes after an array that looks like one**: in
the section itself, or in the section of a service further on. -/
theorem top_rows_right_iff :
    TopRowsRight printG qsort now ss ↔
      (∀ priv post, findSection (.lit "procmem") ss = some (.procmem priv, post) →
        priv.shrinkers = [] ∧ priv.topRss = [] ∧ ∀ st ∈ post, ¬ st.Lists qsort (.lit "pid")) ∧
      ∀ priv post, findSection (.lit "slabinfo") ss = some (.slabinfo priv, post) →
        priv.shrinkers = [] ∧ ∀ st ∈ post, ¬ st.Lists qsort (.lit "name") := by
  rw [← cmdTop_right_iff hprint qsort now ss, ← cmdSlab_right_iff hprint qsort now ss]
  exact ⟨fun h => ⟨⟨h.growers, h.topRss⟩, h.slab⟩, fun h => ⟨h.1.1, h.1.2, h.2⟩⟩

end

/-- A process that grew. -/
def grownEntry : ProcmemEntry where
  pid := 7
  cmd := .lit "sh"
  rssKb := 900
  dataKb := 300
  rssDeltaKb := 100
  dataDeltaKb := 0

/-- A process that shrank. -/
def shrunkEntry : ProcmemEntry where
  pid := 8
  cmd := .lit "ls"
  rssKb := 500
  dataKb := 300
  rssDeltaKb := -100
  dataDeltaKb := 0

theorem top_rows_right_iff_last :
    (cmdTop (document (fun _ => .lit "0") .merge 17
      [vmstatState, .procmem { procmemInit with growers := [grownEntry] }])).growers =
        some [GrowerRow.of grownEntry] := by
  refine ((top_rows_right_iff (fun _ => by decide) .merge 17 _).2 ⟨?_, ?_⟩).growers
  · intro priv post h
    cases Option.some.inj h
    exact ⟨rfl, rfl, fun _ => List.not_mem_nil.elim⟩
  · intro priv post h
    cases h

/-- One process grew, and the table has two rows: the second is the one that shrank. -/
theorem top_rows_wrong :
    let ss : List ServiceState := [.procmem { procmemInit with
      growers := [grownEntry]
      shrinkers := [shrunkEntry] }]
    (cmdTop (document (fun _ => .lit "0") .merge 17 ss)).growers =
        some [GrowerRow.of grownEntry, GrowerRow.of shrunkEntry] ∧
      ¬ TopRowsRight (fun _ => .lit "0") .merge 17 ss := by
  intro ss
  have hrows : (cmdTop (document (fun _ => .lit "0") .merge 17 ss)).growers =
      some [GrowerRow.of grownEntry, GrowerRow.of shrunkEntry] := by
    have hfind : findSection (.lit "procmem") ss = some (.procmem { procmemInit with
        growers := [grownEntry]
        shrinkers := [shrunkEntry] }, []) := rfl
    rw [cmdTop_document (fun _ => by decide) hfind]
    have hshrunk := @GrowerRow.reads (fun _ => .lit "0") (fun _ => by decide) shrunkEntry
      (.arrayEnd :: .key (.lit "top_rss") :: .arrayStart :: .arrayEnd :: .objectEnd ::
        afterCalls .merge []) rfl
    rw [← hshrunk]
    rfl
  refine ⟨hrows, fun h => ?_⟩
  have hone : ((procmemOf ss).map fun priv => priv.growers.map GrowerRow.of) =
      some [GrowerRow.of grownEntry] := rfl
  have hwrong := h.growers
  rw [hrows, hone, Option.some_inj] at hwrong
  exact absurd (congrArg List.length hwrong) (by simp)

end Qmem
