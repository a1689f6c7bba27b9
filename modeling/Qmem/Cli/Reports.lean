import Qmem.Cli.Fdmon
import Qmem.Cli.Memleak
import Qmem.Cli.Status
import Qmem.Cli.Top

/-!
# What the reports show

The commands and the services agree on a key only if the same string was typed twice, and a search
for a key or for an object ends at the end of the document, not at the end of the section. So a
report is right on some snapshots, and the two theorems here say on which.

Main results: `numbers_right_iff`, `leaks_right_iff`.
-/

namespace Qmem

open CLib

/-! ## Numbers -/

section

variable (printG : ℚ → CStr) {D : Type} [Zero D] (strtod : Bytes → D) (qsort : Qsort) (now : Int64)
  (ss : List ServiceState)

/-- The numbers on display are those that the services hold: the counters of every interface, the
total memory, the blocked processes, and the baselines of every process. -/
structure NumbersRight : Prop where
  interfaces : ∀ priv post, findSection (.lit "netstat") ss = some (.netstat priv, post) →
    ∃ rows, (cmdStatus strtod (document printG qsort now ss)).netstat.join = some rows ∧
      List.Forall₂ InterfaceRow.Shows (rows.take priv.current.length) priv.current
  total : ∀ priv post, findSection (.lit "meminfo") ss = some (.meminfo priv, post) →
    ((cmdStatus strtod (document printG qsort now ss)).meminfo.bind (·.memory)).map (·.total) =
      some priv.current.memTotalKb
  blocked : ∀ priv post, findSection (.lit "procstat") ss = some (.procstat priv, post) →
    (cmdStatus strtod (document printG qsort now ss)).procstat.join.map (·.blocked) =
      some priv.summary.diskSleep.toInt64
  initial : ∀ priv post, findSection (.lit "memleak") ss = some (.memleak priv, post) →
    ∃ rows, (cmdMemleak (document printG qsort now ss)).bind (·.procUsage) = some rows ∧
      List.Forall₂ (fun row e => row.ShowsInitial (heapBaseline priv.heapmon e))
        (rows.take (processUsage qsort priv).length) (processUsage qsort priv)

/-- The numbers that the commands cannot read are 0, and the baseline of every process is that of
the first one in heapmon's section, if heapmon comes after memleak, and 0 otherwise. -/
structure NumbersMissed : Prop where
  interfaces : ∀ priv post, findSection (.lit "netstat") ss = some (.netstat priv, post) →
    ∀ iface ∈ priv.current, Idle iface
  total : ∀ priv post, findSection (.lit "meminfo") ss = some (.meminfo priv, post) →
    priv.current.memTotalKb = 0
  blocked : ∀ priv post, findSection (.lit "procstat") ss = some (.procstat priv, post) →
    priv.summary.diskSleep = 0
  initial : ∀ priv post, findSection (.lit "memleak") ss = some (.memleak priv, post) →
    ∀ e ∈ processUsage qsort priv, heapBaseline priv.heapmon e = laterBaseline post

variable {printG qsort now ss} {post : List ServiceState} (hprint : ∀ d, 0x22 ∉ (printG d).bytes)

include hprint

theorem interfaces_right_iff {priv : Netstat.NetstatPriv}
    (hfind : findSection (.lit "netstat") ss = some (.netstat priv, post)) :
    (∃ rows, (cmdStatus strtod (document printG qsort now ss)).netstat.join = some rows ∧
      List.Forall₂ InterfaceRow.Shows (rows.take priv.current.length) priv.current) ↔
      ∀ iface ∈ priv.current, Idle iface := by
  obtain ⟨more, hrows⟩ := cmdStatus_interfaces hprint strtod qsort now hfind
  rw [hrows]
  simp only [Option.some_inj, exists_eq_left']
  rw [List.take_left' (rowsWith_length _)]
  exact forall₂_rowsWith_iff (fun iface ifaces => InterfaceRow.seen_shows_iff iface ifaces) _

theorem initial_right_iff {priv : Memleak.MemleakPriv}
    (hfind : findSection (.lit "memleak") ss = some (.memleak priv, post)) :
    (∃ rows, (cmdMemleak (document printG qsort now ss)).bind (·.procUsage) = some rows ∧
      List.Forall₂ (fun row e => row.ShowsInitial (heapBaseline priv.heapmon e))
        (rows.take (processUsage qsort priv).length) (processUsage qsort priv)) ↔
      ∀ e ∈ processUsage qsort priv, heapBaseline priv.heapmon e = laterBaseline post := by
  obtain ⟨more, hrows⟩ := cmdMemleak_procUsage hprint now hfind
  rw [hrows]
  simp only [Option.some_inj, exists_eq_left']
  rw [List.take_left' (rowsWith_length _)]
  refine forall₂_rowsWith_iff (fun e es => ?_) _
  have hseen := ProcUsageRow.seen_initial qsort priv post e es
  rw [ProcUsageRow.ShowsInitial] at hseen ⊢
  rw [hseen]
  exact eq_comm

/-- **The numbers are right exactly when the ones that are missed would have been the same.** -/
theorem numbers_right_iff : NumbersRight printG strtod qsort now ss ↔ NumbersMissed qsort ss := by
  have htotal {priv : Meminfo.MeminfoPriv} {post : List ServiceState}
      (hfind : findSection (.lit "meminfo") ss = some (.meminfo priv, post)) :
      ((cmdStatus strtod (document printG qsort now ss)).meminfo.bind (·.memory)).map (·.total) =
        some priv.current.memTotalKb ↔ priv.current.memTotalKb = 0 := by
    rw [cmdStatus_total hprint strtod qsort now hfind, Option.some_inj, eq_comm]
  have hblocked {priv : Procstat.ProcstatPriv} {post : List ServiceState}
      (hfind : findSection (.lit "procstat") ss = some (.procstat priv, post)) :
      (cmdStatus strtod (document printG qsort now ss)).procstat.join.map (·.blocked) =
        some priv.summary.diskSleep.toInt64 ↔ priv.summary.diskSleep = 0 := by
    rw [cmdStatus_blocked hprint strtod qsort now hfind, Option.some_inj]
    refine ⟨fun h => ?_, fun h => by rw [h]; rfl⟩
    have hback := congrArg Int64.toInt32 h
    rwa [Int32.toInt32_toInt64, eq_comm] at hback
  constructor
  · intro h
    exact ⟨fun priv post hfind => (interfaces_right_iff strtod hprint hfind).1
        (h.interfaces priv post hfind),
      fun priv post hfind => (htotal hfind).1 (h.total priv post hfind),
      fun priv post hfind => (hblocked hfind).1 (h.blocked priv post hfind),
      fun priv post hfind => (initial_right_iff hprint hfind).1 (h.initial priv post hfind)⟩
  · intro h
    exact ⟨fun priv post hfind => (interfaces_right_iff strtod hprint hfind).2
        (h.interfaces priv post hfind),
      fun priv post hfind => (htotal hfind).2 (h.total priv post hfind),
      fun priv post hfind => (hblocked hfind).2 (h.blocked priv post hfind),
      fun priv post hfind => (initial_right_iff hprint hfind).2 (h.initial priv post hfind)⟩

end

/-- An interface that has received a page. -/
def busyIface : Netstat.NetstatIface where
  name := .lit "eth0"
  rxBytes := 4096
  rxPackets := 4
  rxErrors := 0
  rxDropped := 0
  txBytes := 0
  txPackets := 0
  txErrors := 0
  txDropped := 0
  rxBytesDelta := 0
  rxPacketsDelta := 0
  txBytesDelta := 0
  txPacketsDelta := 0
  rxRate := 0
  txRate := 0

def netstatOf (ifaces : List Netstat.NetstatIface) : ServiceState :=
  .netstat { current := ifaces, previous := [], hasPrevious := false, lastCollect := 0 }

/-- Processes of which some wait for a disk. -/
def procstatOf (diskSleep : Int32) : ServiceState :=
  .procstat { summary := ⟨1, 2, diskSleep, 0, 0, 3 + diskSleep⟩, blocked := [] }

theorem numbers_right_iff_idle :
    NumbersRight (fun _ => .lit "0") (fun _ => (0 : ℚ)) .merge 17
      [netstatOf [{ busyIface with rxBytes := 0 }], procstatOf 0] := by
  refine (numbers_right_iff _ fun _ => by decide).2 ⟨?_, ?_, ?_, ?_⟩
  · intro priv post h iface hiface
    cases Option.some.inj h
    rw [List.mem_singleton.1 hiface]
    exact ⟨rfl, rfl, rfl, rfl⟩
  · intro priv post h
    cases h
  · intro priv post h
    cases Option.some.inj h
    rfl
  · intro priv post h
    cases h

/-- Three processes wait for a disk, and none is shown. -/
theorem numbers_wrong :
    (cmdStatus (fun _ => (0 : ℚ)) (document (fun _ => .lit "0") .merge 17
        [netstatOf [busyIface], procstatOf 3])).procstat.join.map (·.blocked) = some 0 ∧
      ¬ NumbersRight (fun _ => .lit "0") (fun _ => (0 : ℚ)) .merge 17
        [netstatOf [busyIface], procstatOf 3] := by
  have hfind : findSection (.lit "procstat") [netstatOf [busyIface], procstatOf 3] =
      some (.procstat { summary := ⟨1, 2, 3, 0, 0, 6⟩, blocked := [] }, []) := rfl
  have hshown : (cmdStatus (fun _ => (0 : ℚ)) (document (fun _ => .lit "0") .merge 17
      [netstatOf [busyIface], procstatOf 3])).procstat.join.map (·.blocked) = some 0 :=
    cmdStatus_blocked (fun _ => by decide) _ .merge 17 hfind
  refine ⟨hshown, fun h => ?_⟩
  have hwrong := h.blocked _ _ hfind
  rw [hshown] at hwrong
  exact absurd hwrong (by decide)

/-! ## Leaks -/

/-- The user leaks in the memleak section of a snapshot. -/
def userLeaksOf (ss : List ServiceState) : List Heapmon.HeapmonEntry :=
  match findSection (.lit "memleak") ss with
  | some (.memleak priv, _) => userLeaks priv
  | _ => []

/-- The leakers in the fdmon section of a snapshot. -/
def leakersOf (ss : List ServiceState) : List Fdmon.FdmonEntry :=
  match findSection (.lit "fdmon") ss with
  | some (.fdmon priv, _) => priv.leakers
  | _ => []

/-- The warning is printed exactly when there are user leaks, and the table exactly when there are
leakers, with a row for each of the first ten. -/
structure LeaksRight (printG : ℚ → CStr) (qsort : Qsort) (now : Int64) (ss : List ServiceState) :
    Prop where
  userLeaks : (cmdMemleak (document printG qsort now ss)).map (·.userLeaks) = some true ↔
    userLeaksOf ss ≠ []
  leakers : (cmdFdmon (document printG qsort now ss)).bind (·.leakers) =
    if (leakersOf ss).isEmpty then none else some (((leakersOf ss).take 10).map LeakerRow.of)

theorem ServiceState.eq_memleak {st : ServiceState} (h : st.name = .lit "memleak") :
    ∃ priv, st = .memleak priv := by
  cases st with
  | memleak priv => exact ⟨priv, rfl⟩
  | _ => exact absurd h (by simp only [ServiceState.name]; decide)

theorem ServiceState.eq_fdmon {st : ServiceState} (h : st.name = .lit "fdmon") :
    ∃ priv, st = .fdmon priv := by
  cases st with
  | fdmon priv => exact ⟨priv, rfl⟩
  | _ => exact absurd h (by simp only [ServiceState.name]; decide)

section

variable {printG : ℚ → CStr} (hprint : ∀ d, 0x22 ∉ (printG d).bytes) (qsort : Qsort) (now : Int64)
  (ss : List ServiceState)

include hprint

theorem userLeaks_right_iff :
    ((cmdMemleak (document printG qsort now ss)).map (·.userLeaks) = some true ↔
        userLeaksOf ss ≠ []) ↔
      ∀ priv post, findSection (.lit "memleak") ss = some (.memleak priv, post) →
        userLeaks priv ≠ [] ∨
          processUsage qsort priv = [] ∧ ∀ st ∈ post, ¬ st.Lists qsort (.lit "pid") := by
  cases hfind : findSection (.lit "memleak") ss with
  | none =>
    have hnone := strstr_section_none hprint qsort now rfl rfl hfind
    simp [userLeaksOf, hfind, cmdMemleak, hnone]
  | some found =>
    obtain ⟨st, post⟩ := found
    obtain ⟨priv, rfl⟩ := ServiceState.eq_memleak (findSection_name hfind)
    have hleaks : userLeaksOf ss = userLeaks priv := by rw [userLeaksOf, hfind]
    rw [hleaks, cmdMemleak_userLeaks_iff hprint hfind, ← hfind,
      forall_found_iff (fun _ _ h => ServiceState.memleak.inj h) hfind]
    by_cases h : userLeaks priv = []
    · simp [h]
    · simp [h]

theorem leakers_right_iff :
    (cmdFdmon (document printG qsort now ss)).bind (·.leakers) =
        (if (leakersOf ss).isEmpty then none
          else some (((leakersOf ss).take 10).map LeakerRow.of)) ↔
      ∀ priv post, findSection (.lit "fdmon") ss = some (.fdmon priv, post) →
        10 ≤ priv.leakers.length ∨ ∀ st ∈ post, ¬ st.Lists qsort (.lit "pid") := by
  cases hfind : findSection (.lit "fdmon") ss with
  | none =>
    have hnone := strstr_section_none hprint qsort now rfl rfl hfind
    simp [leakersOf, hfind, cmdFdmon, hnone]
  | some found =>
    obtain ⟨st, post⟩ := found
    obtain ⟨priv, rfl⟩ := ServiceState.eq_fdmon (findSection_name hfind)
    have hleakers : leakersOf ss = priv.leakers := by rw [leakersOf, hfind]
    obtain ⟨more, hmore, htable⟩ := cmdFdmon_leakers hprint hfind
    rw [hleakers, htable, table_right_iff, hmore, ← hfind,
      forall_found_iff (fun _ _ h => ServiceState.fdmon.inj h) hfind]

/-- **The reports of leaks are right exactly when there are leaks enough, or when nothing behind
the empty list looks like one.** -/
theorem leaks_right_iff :
    LeaksRight printG qsort now ss ↔
      (∀ priv post, findSection (.lit "memleak") ss = some (.memleak priv, post) →
        userLeaks priv ≠ [] ∨
          processUsage qsort priv = [] ∧ ∀ st ∈ post, ¬ st.Lists qsort (.lit "pid")) ∧
      ∀ priv post, findSection (.lit "fdmon") ss = some (.fdmon priv, post) →
        10 ≤ priv.leakers.length ∨ ∀ st ∈ post, ¬ st.Lists qsort (.lit "pid") := by
  rw [← userLeaks_right_iff hprint qsort now ss, ← leakers_right_iff hprint qsort now ss]
  exact ⟨fun h => ⟨h.userLeaks, h.leakers⟩, fun h => ⟨h.1, h.2⟩⟩

end

/-- A process that has opened two files more. -/
def grownFds : Fdmon.FdmonEntry where
  pid := 7
  cmd := [0x73, 0x68, 0]
  fdCount := 5
  initialFdCount := 3
  fdDelta := 2
  fdChange := 2
  types := ⟨5, 0, 0, 0, 0⟩

def fdmonOf (leakers : List Fdmon.FdmonEntry) : Fdmon.FdmonPriv where
  current := []
  previous := []
  hasPrevious := true
  initial := []
  topConsumers := []
  leakers
  summary := ⟨0, 0, 0, leakers.length.toInt32⟩

/-- A library in which heapmon has found no process that it could look into. -/
def quietMemleak : Memleak.MemleakPriv where
  procmem := Procmem.procmemInit
  slabinfo := ⟨[], [], false, [], []⟩
  heapmon := ⟨[], [], [], false, [], [], 0⟩
  meminfo :=
    let zero : Meminfo.MeminfoData := ⟨0, 0, 0, 0, 0, 0, 0, 0, 0, 0, 0, 0, 0, 0, 0, 0, 0⟩
    ⟨zero, zero, false⟩

theorem leaks_right_iff_last :
    (cmdFdmon (document (fun _ => .lit "0") .merge 17
      [vmstatState, .fdmon (fdmonOf [grownFds])])).bind (·.leakers) =
        some [LeakerRow.of grownFds] := by
  refine ((leaks_right_iff (fun _ => by decide) .merge 17 _).2 ⟨?_, ?_⟩).leakers
  · intro priv post h
    cases h
  · intro priv post h
    cases Option.some.inj h
    exact .inr fun _ => List.not_mem_nil.elim

/-- Nothing leaks, but a process is listed further on: there is a warning, and a table of
leakers. -/
theorem leaks_wrong :
    let ss : List ServiceState := [.memleak quietMemleak, .fdmon (fdmonOf []),
      .procmem { Procmem.procmemInit with growers := [grownEntry] }]
    (cmdMemleak (document (fun _ => .lit "0") .merge 17 ss)).map (·.userLeaks) = some true ∧
      (cmdFdmon (document (fun _ => .lit "0") .merge 17 ss)).bind (·.leakers) ≠ none ∧
      ¬ LeaksRight (fun _ => .lit "0") .merge 17 ss := by
  intro ss
  have hlists : (ServiceState.procmem { Procmem.procmemInit with growers := [grownEntry] }).Lists
      .merge (.lit "pid") := List.cons_ne_nil _ _
  have hmemleak : findSection (.lit "memleak") ss = some (.memleak quietMemleak, ss.tail) := rfl
  have hfdmon : findSection (.lit "fdmon") ss = some (.fdmon (fdmonOf []), ss.tail.tail) := rfl
  have hwarned : (cmdMemleak (document (fun _ => .lit "0") .merge 17 ss)).map (·.userLeaks) =
      some true :=
    (cmdMemleak_userLeaks_iff (fun _ => by decide) hmemleak).2
      (.inr (.inr ⟨_, .tail _ (.head _), hlists⟩))
  refine ⟨hwarned, ?_, fun h => h.userLeaks.1 hwarned rfl⟩
  obtain ⟨more, hmore, htable⟩ := @cmdFdmon_leakers .merge 17 _ _ _ (fun _ => .lit "0")
    (fun _ => by decide) hfdmon
  have hne : more ≠ [] := fun hnil => hmore.1 hnil _ (.head _) hlists
  rw [htable, if_neg fun h => hne (List.append_eq_nil_iff.1 h).2]
  exact nofun

end Qmem
