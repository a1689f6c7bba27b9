import Qmem.Cli.Document

/-!
# `qmemctl fdmon` (`cli/commands.c`)

The table of leakers is printed if an object that starts with a pid stands anywhere behind the
list, and its rows are the first ten of those, leakers or not.
-/

namespace Qmem

open CLib Fdmon

/-! ## The command -/

structure FdSummaryReport where
  total : Int64
  procs : Int64
  leaks : Int64

def FdSummaryReport.read (summary : Bytes) : FdSummaryReport where
  total := jsonGetInt summary (.lit "total_fds")
  procs := jsonGetInt summary (.lit "proc_count")
  leaks := jsonGetInt summary (.lit "potential_leaks")

/-- A row under "Top FD Consumers". -/
structure ConsumerRow where
  pid : Int64
  fdCount : Int64
  initial : Int64
  change : Int64
  files : Int64
  sockets : Int64
  pipes : Int64
  other : Int64
  cmd : Bytes

def ConsumerRow.read (pos : Bytes) : ConsumerRow where
  pid := jsonGetInt pos (.lit "pid")
  fdCount := jsonGetInt pos (.lit "fd_count")
  initial := jsonGetInt pos (.lit "initial_fd_count")
  change := jsonGetInt pos (.lit "fd_change")
  files := jsonGetInt pos (.lit "files")
  sockets := jsonGetInt pos (.lit "sockets")
  pipes := jsonGetInt pos (.lit "pipes")
  other := jsonGetInt pos (.lit "other") + jsonGetInt pos (.lit "eventfds")
  cmd := extractString pos (.lit "cmd") 63 (CStr.lit "unknown").bytes

/-- A row under "Potential FD Leakers". -/
structure LeakerRow where
  pid : Int64
  fdCount : Int64
  initial : Int64
  change : Int64
  cmd : Bytes
deriving DecidableEq

def LeakerRow.read (pos : Bytes) : LeakerRow where
  pid := jsonGetInt pos (.lit "pid")
  fdCount := jsonGetInt pos (.lit "fd_count")
  initial := jsonGetInt pos (.lit "initial_fd_count")
  change := jsonGetInt pos (.lit "fd_change")
  cmd := extractString pos (.lit "cmd") 63 (CStr.lit "unknown").bytes

/-- What `cmd_fdmon` prints: the summary and the rows of its tables, where it prints them. -/
structure FdmonReport where
  summary : Option FdSummaryReport
  consumers : Option (List ConsumerRow)
  leakers : Option (List LeakerRow)

/-- `cmd_fdmon`, for the response of the daemon. -/
def cmdFdmon (response : Bytes) : Option FdmonReport :=
  (strstr response (keyPattern (.lit "fdmon"))).map fun fdmon => {
    summary := (strstr fdmon (keyPattern (.lit "summary"))).map FdSummaryReport.read
    consumers := (strstr fdmon (keyPattern (.lit "top_consumers"))).map fun consumers =>
      (arrayRows consumers (.lit "pid") ConsumerRow.read).take 15
    leakers := (strstr fdmon (keyPattern (.lit "leakers"))).bind fun leakers =>
      if objectBehind leakers (.lit "pid") then
        some ((arrayRows leakers (.lit "pid") LeakerRow.read).take 10)
      else none }

/-! ## The leakers -/

/-- The row of a leaker. -/
def LeakerRow.of (e : FdmonEntry) : LeakerRow where
  pid := e.pid.toInt64
  fdCount := e.fdCount.toInt64
  initial := e.initialFdCount.toInt64
  change := e.fdChange.toInt64
  cmd := (shown (cstr e.cmd)).take 63

/-- The row of a consumer. -/
def ConsumerRow.of (e : FdmonEntry) : ConsumerRow where
  pid := e.pid.toInt64
  fdCount := e.fdCount.toInt64
  initial := e.initialFdCount.toInt64
  change := e.fdChange.toInt64
  files := e.types.files.toInt64
  sockets := e.types.sockets.toInt64
  pipes := e.types.pipes.toInt64
  other := e.types.other.toInt64 + e.types.eventfds.toInt64
  cmd := (shown (cstr e.cmd)).take 63

section

variable {qsort : Qsort} {now : Int64} {ss post : List ServiceState} {priv : FdmonPriv}

theorem firstKey_consumers (qsort : Qsort) (priv : FdmonPriv) (post : List ServiceState) :
    firstKey (.lit "top_consumers") (sectionCalls qsort (.fdmon priv) post) =
      some (.key (.lit "top_consumers") :: (arrayCalls priv.topConsumers consumerCalls ++
        .key (.lit "leakers") :: (arrayCalls priv.leakers leakerCalls ++
          .objectEnd :: afterCalls qsort post))) := by
  simp [sectionCalls, ServiceState.snapshot, fdmonSnapshot, objectCalls]
  rfl

theorem firstKey_leakers (qsort : Qsort) (priv : FdmonPriv) (post : List ServiceState) :
    firstKey (.lit "leakers") (sectionCalls qsort (.fdmon priv) post) =
      some (.key (.lit "leakers") :: (arrayCalls priv.leakers leakerCalls ++
        .objectEnd :: afterCalls qsort post)) := by
  obtain ⟨front, hfront, hsection⟩ : ∃ front : List (JsonCall ℚ), NoKey (.lit "leakers") front ∧
      sectionCalls qsort (.fdmon priv) post =
        (front ++ arrayCalls priv.topConsumers consumerCalls) ++ (JsonCall.key (.lit "leakers") ::
          (arrayCalls priv.leakers leakerCalls ++ .objectEnd :: afterCalls qsort post)) := by
    refine ⟨.key (.lit "fdmon") :: .objectStart :: .key (.lit "summary") :: (objectCalls [[
      .kvInt (.lit "total_fds") priv.summary.totalFds.toInt64,
      .kvInt (.lit "proc_count") priv.summary.procCount.toInt64,
      .kvInt (.lit "potential_leaks") priv.summary.potentialLeaks.toInt64]] ++
        [.key (.lit "top_consumers")]), noKey_of_all rfl, ?_⟩
    simp [sectionCalls, ServiceState.snapshot, fdmonSnapshot, objectCalls, ServiceState.name]
  have hconsumers : NoKey (.lit "leakers")
      (arrayCalls priv.topConsumers consumerCalls : List (JsonCall ℚ)) :=
    noKey_arrayCalls (fun _ => noKey_of_all rfl) _
  rw [hsection, firstKey_append (hfront.append hconsumers)]
  rfl

variable {printG : ℚ → CStr} (hprint : ∀ d, 0x22 ∉ (printG d).bytes)

include hprint

theorem LeakerRow.reads : Reads printG leakerCalls LeakerRow.read LeakerRow.of := by
  intro e rest hrest
  have hall : (leakerCalls e ++ rest).all JsonCall.readable = true := by
    rw [List.all_append, hrest]
    rfl
  have hident := identKeys_of_readable hall
  rw [LeakerRow.read, LeakerRow.of,
    jsonGetInt_int hprint hident (k := .lit "pid") rfl (by decide) (v := e.pid.toInt64) rfl,
    jsonGetInt_int hprint hident (k := .lit "fd_count") rfl (by decide) (v := e.fdCount.toInt64)
      rfl,
    jsonGetInt_int hprint hident (k := .lit "initial_fd_count") rfl (by decide)
      (v := e.initialFdCount.toInt64) rfl,
    jsonGetInt_int hprint hident (k := .lit "fd_change") rfl (by decide) (v := e.fdChange.toInt64)
      rfl,
    extractString_value hprint hident (k := .lit "cmd") rfl (stringKey_of_readable hall rfl)
      (v := cstr e.cmd) rfl]

theorem ConsumerRow.reads : Reads printG consumerCalls ConsumerRow.read ConsumerRow.of := by
  intro e rest hrest
  have hall : (consumerCalls e ++ rest).all JsonCall.readable = true := by
    rw [List.all_append, hrest]
    rfl
  have hident := identKeys_of_readable hall
  rw [ConsumerRow.read, ConsumerRow.of,
    jsonGetInt_int hprint hident (k := .lit "pid") rfl (by decide) (v := e.pid.toInt64) rfl,
    jsonGetInt_int hprint hident (k := .lit "fd_count") rfl (by decide) (v := e.fdCount.toInt64)
      rfl,
    jsonGetInt_int hprint hident (k := .lit "initial_fd_count") rfl (by decide)
      (v := e.initialFdCount.toInt64) rfl,
    jsonGetInt_int hprint hident (k := .lit "fd_change") rfl (by decide) (v := e.fdChange.toInt64)
      rfl,
    jsonGetInt_int hprint hident (k := .lit "files") rfl (by decide) (v := e.types.files.toInt64)
      rfl,
    jsonGetInt_int hprint hident (k := .lit "sockets") rfl (by decide)
      (v := e.types.sockets.toInt64) rfl,
    jsonGetInt_int hprint hident (k := .lit "pipes") rfl (by decide) (v := e.types.pipes.toInt64)
      rfl,
    jsonGetInt_int hprint hident (k := .lit "other") rfl (by decide) (v := e.types.other.toInt64)
      rfl,
    jsonGetInt_int hprint hident (k := .lit "eventfds") rfl (by decide)
      (v := e.types.eventfds.toInt64) rfl,
    extractString_value hprint hident (k := .lit "cmd") rfl (stringKey_of_readable hall rfl)
      (v := cstr e.cmd) rfl]

/-- The table of a snapshot that has an fdmon section: `more` are the objects behind the list. -/
theorem cmdFdmon_consumers (now : Int64)
    (hfind : findSection (.lit "fdmon") ss = some (.fdmon priv, post)) :
    ∃ more : List ConsumerRow, (cmdFdmon (document printG qsort now ss)).bind (·.consumers) =
      some ((priv.topConsumers.map ConsumerRow.of ++ more).take 15) := by
  have hend : (JsonCall.objectEnd :: afterCalls qsort post).all JsonCall.readable = true := by
    rw [List.all_cons, readable_afterCalls]
    rfl
  have hleakers : (.key (.lit "leakers") :: (arrayCalls priv.leakers leakerCalls ++
      .objectEnd :: afterCalls qsort post)).all JsonCall.readable = true :=
    readable_member rfl (all_arrayCalls checksKey_readable fun _ => rfl) hend
  refine ⟨(objectsWith (.lit "pid") (.key (.lit "leakers") ::
    (arrayCalls priv.leakers leakerCalls ++ .objectEnd :: afterCalls qsort post))).map fun cs =>
      ConsumerRow.read (callText printG false cs), ?_⟩
  rw [cmdFdmon, strstr_section_some hprint hfind, Option.map_some, Option.bind_some,
    strstr_member hprint rfl (firstKey_consumers qsort priv post), Option.map_some,
    arrayRows_array hprint rfl rfl (fun _ _ => rfl) (ConsumerRow.reads hprint) (fun _ => rfl)
      hleakers]

/-- The table of a snapshot that has an fdmon section: `more` are the objects behind the list. -/
theorem cmdFdmon_leakers (hfind : findSection (.lit "fdmon") ss = some (.fdmon priv, post)) :
    ∃ more : List LeakerRow, (more = [] ↔ ∀ st ∈ post, ¬ st.Lists qsort (.lit "pid")) ∧
      (cmdFdmon (document printG qsort now ss)).bind (·.leakers) =
        if priv.leakers.map LeakerRow.of ++ more = [] then none
        else some ((priv.leakers.map LeakerRow.of ++ more).take 10) := by
  have hend : (JsonCall.objectEnd :: afterCalls qsort post).all JsonCall.readable = true := by
    rw [List.all_cons, readable_afterCalls]
    rfl
  set more := (objectsWith (.lit "pid") (.objectEnd :: afterCalls qsort post)).map fun cs =>
    LeakerRow.read (callText printG false cs) with hmore
  have hnone : more = [] ↔ ∀ st ∈ post, ¬ st.Lists qsort (.lit "pid") := by
    rw [hmore, List.map_eq_nil_iff, ← objectsWith_afterCalls]
    rfl
  refine ⟨more, hnone, ?_⟩
  have hkey : identKey (.lit "leakers") = true := rfl
  have hbehind := objectBehind_iff (k := .lit "pid") hprint rfl hkey
    (fun _ _ => rfl) (f := leakerCalls) (fun _ => rfl) hend priv.leakers
  have hrows := arrayRows_array (k := .lit "pid") hprint rfl hkey
    (fun _ _ => rfl) (LeakerRow.reads hprint) (fun _ => rfl) hend priv.leakers
  have hprinted : objectBehind (callText printG false (.key (.lit "leakers") ::
      (arrayCalls priv.leakers leakerCalls ++ .objectEnd :: afterCalls qsort post)))
        (.lit "pid") = true ↔ ¬ priv.leakers.map LeakerRow.of ++ more = [] := by
    rw [hbehind, List.append_eq_nil_iff, List.map_eq_nil_iff, hmore, List.map_eq_nil_iff,
      not_and_or]
  rw [cmdFdmon, strstr_section_some hprint hfind, Option.map_some, Option.bind_some,
    strstr_member hprint rfl (firstKey_leakers qsort priv post), Option.bind_some, hrows, ← hmore]
  by_cases hempty : priv.leakers.map LeakerRow.of ++ more = []
  · rw [if_pos hempty, if_neg (fun h => hprinted.1 h hempty)]
  · rw [if_neg hempty, if_pos (hprinted.2 hempty)]

end

/-- The table is right if it has no row too many: the list fills it, or nothing comes behind. -/
theorem table_right_iff {α β : Type} [DecidableEq β] {of : α → β} {xs : List α} {more : List β} :
    (if xs.map of ++ more = [] then none else some ((xs.map of ++ more).take 10)) =
        (if xs.isEmpty then none else some ((xs.take 10).map of)) ↔
      10 ≤ xs.length ∨ more = [] := by
  cases xs with
  | nil => cases more <;> simp
  | cons x xs =>
    have hne : ¬ (x :: xs).map of ++ more = [] := by simp
    rw [if_neg hne, List.isEmpty_cons, if_neg Bool.false_ne_true, Option.some_inj, List.map_take]
    constructor
    · intro h
      by_contra hshort
      rw [not_or, Nat.not_le] at hshort
      have hlen := congrArg List.length h
      have hpos := List.length_pos_iff.2 hshort.2
      rw [List.length_take, List.length_take, List.length_append, List.length_map] at hlen
      omega
    · rintro (hfull | rfl)
      · rw [List.take_append_of_le_length (by rwa [List.length_map])]
      · rw [List.append_nil]

end Qmem
