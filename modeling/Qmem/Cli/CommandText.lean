import Qmem.Cli.Fdmon
import Qmem.Cli.Memleak
import Qmem.Cli.Sockets
import Qmem.Cli.Status
import Qmem.Cli.Top

/-!
# The commands in the tables (`cli/commands.c`)

Each table takes the command of a row from the text as it is written there, up to the next quote,
and undoes no escape. So a command is shown as it was stored exactly when it is legible in the
buffer of the table.

Main result: `commands_shown_iff`.
-/

namespace Qmem

open CLib

section

variable {α β : Type}

/-- The table begins with a row for each entry, and the text in the row is the command of the entry
exactly when that is legible in `n` bytes. -/
def ColumnOf (n : Nat) (rows : Option (List β)) (text : β → Bytes) (entries : List α)
    (cmd : α → Option CStr) : Prop :=
  ∃ front back, rows.getD [] = front ++ back ∧
    List.Forall₂ (fun row e => ∀ v ∈ cmd e, text row = v.bytes ↔ Legible n v) front entries

variable {n : Nat} {text : β → Bytes} {cmd : α → Option CStr} {entries : List α} {more : List β}

theorem columnOf_rowsWith {f : α → List (JsonCall ℚ)} {row : α → List (JsonCall ℚ) → β}
    (h : ∀ e rest, ∀ v ∈ cmd e, text (row e rest) = (shown v).take n) (cs : List (JsonCall ℚ)) :
    ColumnOf n (some (rowsWith f row cs entries ++ more)) text entries cmd := by
  refine ⟨_, _, rfl, (forall₂_rowsWith_iff (Q := fun _ => True) (fun e es => ?_) entries).2
    fun _ _ => trivial⟩
  refine iff_of_true (fun v hv => ?_) trivial
  rw [h e _ v hv, shown_take_iff]

theorem columnOf_map {row : α → β} (h : ∀ e, ∀ v ∈ cmd e, text (row e) = (shown v).take n) :
    ColumnOf n (some (entries.map row ++ more)) text entries cmd := by
  rw [← rowsWith_eq_map (f := fun _ => []) row []]
  exact columnOf_rowsWith (fun e _ => h e) []

/-- Of a table that is cut there is a row for each of the first entries. -/
theorem columnOf_take {row : α → β} (h : ∀ e, ∀ v ∈ cmd e, text (row e) = (shown v).take n)
    (k : Nat) :
    ColumnOf n (some ((entries.map row ++ more).take k)) text (entries.take k) cmd := by
  rw [List.take_append, ← List.map_take]
  exact columnOf_map h

end

/-- Every column of commands, with what it holds and how many bytes it has room for. A socket has
a command only if somebody owns it. -/
structure CommandsShown (printG : ℚ → CStr) {D : Type} [Zero D] (strtod : Bytes → D)
    (qsort : Qsort) (now : Int64) (ss : List ServiceState) : Prop where
  growers : ∀ priv post, findSection (.lit "procmem") ss = some (.procmem priv, post) →
    ColumnOf 63 (cmdTop (document printG qsort now ss)).growers GrowerRow.cmd
      priv.growers fun e => some e.cmd
  topRss : ∀ priv post, findSection (.lit "procmem") ss = some (.procmem priv, post) →
    ColumnOf 63 (cmdTop (document printG qsort now ss)).topRss TopRssRow.cmd
      priv.topRss fun e => some e.cmd
  events : ∀ priv post, findSection (.lit "procevent") ss = some (.procevent priv, post) →
    ColumnOf 63 ((cmdStatus strtod (document printG qsort now ss)).procevent.bind (·.events))
      EventRow.cmd ((eventsShown priv).take 5) fun e => some e.cmd
  sockets : ∀ priv post, findSection (.lit "sockstat") ss = some (.sockstat priv, post) →
    ColumnOf 31 (cmdSockets (document printG qsort now ss)) SocketRow.cmd priv.sockets
      fun s => if s.pid > 0 then some s.cmd else none
  procUsage : ∀ priv post, findSection (.lit "memleak") ss = some (.memleak priv, post) →
    ColumnOf 127 ((cmdMemleak (document printG qsort now ss)).bind (·.procUsage))
      ProcUsageRow.cmd (processUsage qsort priv) fun e => some (cstr e.cmd)
  consumers : ∀ priv post, findSection (.lit "fdmon") ss = some (.fdmon priv, post) →
    ColumnOf 63 ((cmdFdmon (document printG qsort now ss)).bind (·.consumers)) ConsumerRow.cmd
      (priv.topConsumers.take 15) fun e => some (cstr e.cmd)
  leakers : ∀ priv post, findSection (.lit "fdmon") ss = some (.fdmon priv, post) →
    ColumnOf 63 ((cmdFdmon (document printG qsort now ss)).bind (·.leakers)) LeakerRow.cmd
      (priv.leakers.take 10) fun e => some (cstr e.cmd)

section

variable {printG : ℚ → CStr} (hprint : ∀ d, 0x22 ∉ (printG d).bytes) {D : Type} [Zero D]
  (strtod : Bytes → D) (qsort : Qsort) (now : Int64) (ss : List ServiceState)

include hprint

/-- **A command is shown as it is stored exactly when it is legible**, in every table of every
snapshot. -/
theorem commands_shown_iff : CommandsShown printG strtod qsort now ss where
  growers priv post hfind := by
    rw [cmdTop_document hprint hfind]
    exact columnOf_map fun e v hv => by rw [← Option.some.inj hv, GrowerRow.of]
  topRss priv post hfind := by
    rw [cmdTop_document hprint hfind]
    exact columnOf_map fun e v hv => by rw [← Option.some.inj hv, TopRssRow.of]
  events priv post hfind := by
    obtain ⟨more, hrows⟩ := cmdStatus_events hprint strtod qsort now hfind
    rw [hrows]
    exact columnOf_take (fun e v hv => by rw [← Option.some.inj hv, EventRow.of]) 5
  sockets priv post hfind := by
    rw [cmdSockets_document hprint hfind]
    refine columnOf_rowsWith (fun s rest v hv => ?_) _
    rw [Option.mem_def, Option.ite_none_right_eq_some] at hv
    obtain ⟨hpid, hv⟩ := hv
    show (if s.pid > 0 then (shown s.cmd).take 31 else _) = _
    rw [if_pos hpid, Option.some.inj hv]
  procUsage priv post hfind := by
    obtain ⟨more, hrows⟩ := cmdMemleak_procUsage hprint now hfind
    rw [hrows]
    exact columnOf_rowsWith (fun e rest v hv => by
      rw [← Option.some.inj hv, ProcUsageRow.seen]) _
  consumers priv post hfind := by
    obtain ⟨more, hrows⟩ := cmdFdmon_consumers hprint now hfind
    rw [hrows]
    exact columnOf_take (fun e v hv => by rw [← Option.some.inj hv, ConsumerRow.of]) 15
  leakers priv post hfind := by
    obtain ⟨more, -, hrows⟩ := cmdFdmon_leakers hprint hfind
    rw [hrows]
    split
    · case isTrue hnone =>
      rw [List.map_eq_nil_iff.1 (List.append_eq_nil_iff.1 hnone).1]
      exact ⟨[], [], rfl, .nil⟩
    · exact columnOf_take (fun e v hv => by rw [← Option.some.inj hv, LeakerRow.of]) 10

end

theorem commands_shown_iff_grown :
    ColumnOf 63 (cmdTop (document (fun _ => .lit "0") .merge 17
        [.procmem { Procmem.procmemInit with growers := [grownEntry] }])).growers
      GrowerRow.cmd [grownEntry] fun e => some e.cmd :=
  (@commands_shown_iff (fun _ => .lit "0") (fun _ => by decide) ℚ _ (fun _ => 0) .merge 17
    _).growers { Procmem.procmemInit with growers := [grownEntry] } [] rfl

/-- A process with a quote in its command line. -/
def quotedEntry : Procmem.ProcmemEntry := { grownEntry with cmd := .lit "a\"b" }

/-- Of the command there is `a\` in the table. -/
theorem command_cut :
    let ss : List ServiceState :=
      [.procmem { Procmem.procmemInit with growers := [quotedEntry] }]
    quotedEntry.cmd.length ≤ 63 ∧
      ((cmdTop (document (fun _ => .lit "0") .merge 17 ss)).growers.map fun rows =>
        rows.map (·.cmd)) = some [[0x61, 0x5c]] ∧
      quotedEntry.cmd.bytes ≠ [0x61, 0x5c] := by
  intro ss
  have hfind : findSection (.lit "procmem") ss = some (.procmem { Procmem.procmemInit with
      growers := [quotedEntry] }, []) := rfl
  refine ⟨by decide, ?_, by decide⟩
  rw [cmdTop_document (fun _ => by decide) hfind]
  rfl

end Qmem
