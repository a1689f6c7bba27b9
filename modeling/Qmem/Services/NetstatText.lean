import Qmem.Lib.Table
import Qmem.ProcContents
import Qmem.Services.LastSample

/-!
# What netstat reads of a table

Behind the two header lines every line is an interface: its name, a colon, and sixteen numbers, of
which eight are kept. The first 32 interfaces are stored. A name cannot have a colon, so the first
one on the line ends it.

Main result: `netstat_table`.
-/

namespace Qmem

open CLib

namespace Netstat

/-- The characters of a name. -/
def isNameByte (c : UInt8) : Bool := isWordChar c && c ≠ 0x3a && c ≠ 0

/-- The line of an interface, without its newline; `indent` and `lead` are the spaces before the
name and before the first number. -/
structure NetRow where
  indent : Nat
  name : Token isNameByte
  lead : Nat
  rxBytes : Token Json.isDigit
  rxPackets : Column
  rxErrs : Column
  rxDrop : Column
  rxFifo : Column
  rxFrame : Column
  rxCompressed : Column
  rxMulticast : Column
  txBytes : Column
  txPackets : Column
  txErrs : Column
  txDrop : Column
  txFifo : Column
  txColls : Column
  txCarrier : Column
  txCompressed : Column
  rest : Bytes
  name_length : name.bytes.length ≤ 31
  rest_stops : Stops Json.isDigit rest
  rest_noNewline : 0x0a ∉ rest
  rest_nulFree : 0 ∉ rest

namespace NetRow

/-- The columns behind the first number. -/
def columns (row : NetRow) : List Column := [
  row.rxPackets, row.rxErrs, row.rxDrop, row.rxFifo, row.rxFrame, row.rxCompressed,
  row.rxMulticast, row.txBytes, row.txPackets, row.txErrs, row.txDrop, row.txFifo, row.txColls,
  row.txCarrier, row.txCompressed]

/-- What is behind the colon. -/
def numbers (row : NetRow) : Bytes :=
  List.replicate row.lead 0x20 ++
    (row.rxBytes.bytes ++ ((row.columns.map Column.text).flatten ++ row.rest))

def line (row : NetRow) : Bytes :=
  List.replicate row.indent 0x20 ++ (row.name.bytes ++ 0x3a :: row.numbers)

theorem name_nulFree (row : NetRow) : 0 ∉ row.name.bytes := row.name.not_mem (by decide)

/-- The interface as it is stored. -/
def iface (row : NetRow) : NetstatIface where
  name := ⟨row.name.bytes, row.name_nulFree⟩
  rxBytes := ulong false (Json.natValue row.rxBytes.bytes)
  rxPackets := row.rxPackets.value
  rxErrors := row.rxErrs.value
  rxDropped := row.rxDrop.value
  txBytes := row.txBytes.value
  txPackets := row.txPackets.value
  txErrors := row.txErrs.value
  txDropped := row.txDrop.value
  rxBytesDelta := 0
  rxPacketsDelta := 0
  txBytesDelta := 0
  txPacketsDelta := 0
  rxRate := 0
  txRate := 0

end NetRow

/-! ## One line -/

/-- What the line at the start of `line` gives. -/
def netEntry (line : Bytes) : Option NetstatIface := (netLine [] line).head?

theorem netLine_entry (ifaces : List NetstatIface) (line : Bytes) :
    netLine ifaces line = ifaces ++ (netEntry line).toList := by
  rw [netEntry, netLine, netLine]
  split
  · exact (List.append_nil ifaces).symm
  · dsimp only
    split
    · rfl
    · exact (List.append_nil ifaces).symm

theorem spaces_not_colon (n : Nat) : 0x3a ∉ List.replicate n (0x20 : UInt8) := by
  intro h
  exact absurd (List.eq_of_mem_replicate h) (by decide)

/-- What `sscanf` finds behind the colon. -/
theorem sscanf_numbers (row : NetRow) {rest : Bytes} (hrest : ∀ c ∈ rest.head?, c = 0x0a) :
    sscanf netFormat (row.numbers ++ rest) =
      .unsigned (ulong false (Json.natValue row.rxBytes.bytes)) ::
        row.columns.map fun col => .unsigned col.value := by
  have hend : Stops Json.isDigit (row.rest ++ rest) :=
    stops_append row.rest_stops (stops_of_newline (by decide) hrest)
  have hcolumns := sscanf_columns row.columns hend []
  have hstops : Stops Json.isDigit
      ((row.columns.map Column.text).flatten ++ (row.rest ++ rest)) := by
    rw [NetRow.columns, List.map_cons, List.flatten_cons, List.append_assoc]
    exact row.rxPackets.stops_text (by decide) _
  have hlead : ∀ c ∈ List.replicate row.lead (0x20 : UInt8), isspace c = true := by
    intro c hc
    rw [List.eq_of_mem_replicate hc]
    decide
  have hfirst := scan_unsigned hlead row.rxBytes hstops
  rw [sscanf, List.append_nil, List.append_nil] at hcolumns
  rw [netFormat, NetRow.numbers, List.append_assoc, List.append_assoc, List.append_assoc,
    sscanf_cons hfirst, List.singleton_append]
  exact congrArg _ hcolumns

/-- **An interface's line says what it says**, whatever lines come behind it. -/
theorem netEntry_row (row : NetRow) {rest : Bytes} (hrest : ∀ c ∈ rest.head?, c = 0x0a) :
    netEntry (row.line ++ rest) = some row.iface := by
  have hline : row.line ++ rest =
      List.replicate row.indent 0x20 ++ (row.name.bytes ++ 0x3a :: (row.numbers ++ rest)) := by
    simp only [NetRow.line, List.append_assoc, List.cons_append]
  have hfront : 0x3a ∉ List.replicate row.indent (0x20 : UInt8) ++ row.name.bytes := by
    rw [List.mem_append, not_or]
    exact ⟨spaces_not_colon row.indent, row.name.not_mem (by decide)⟩
  have hcolon : strchr (row.line ++ rest) 0x3a = some (0x3a :: (row.numbers ++ rest)) := by
    rw [hline, ← List.append_assoc, strchr_append hfront]
  have hnameByte : ∀ c, isNameByte c = true → (c == (0x20 : UInt8)) = false :=
    forall_byte (by decide +kernel)
  have hskip : (row.line ++ rest).dropWhile (fun c => decide (c = 0x20)) =
      row.name.bytes ++ 0x3a :: (row.numbers ++ rest) := by
    rw [hline]
    refine dropWhile_stops (fun c hc => ?_) (row.name.stops (fun c hc => ?_) _)
    · rw [List.eq_of_mem_replicate hc]
      rfl
    · simpa using hnameByte c hc
  have hname : cstr (row.name.bytes ++ [0]) = ⟨row.name.bytes, row.name_nulFree⟩ :=
    CStr.cstr_terminated ⟨_, row.name_nulFree⟩
  rw [netEntry, netLine, hcolon]
  simp only [hskip, List.length_append, List.tail_cons, sscanf_numbers row hrest, Nat.add_sub_cancel,
    List.take_left, List.take_of_length_le row.name_length, hname]
  rfl

theorem NetRow.not_mem_line (row : NetRow) {c : UInt8} (hspace : c ≠ 0x20) (hcolon : c ≠ 0x3a)
    (hdigit : Json.isDigit c = false) (hname : c ∉ row.name.bytes) (hrest : c ∉ row.rest) :
    c ∉ row.line := by
  have hspaces (n : Nat) : c ∉ List.replicate n (0x20 : UInt8) := by
    intro h
    exact hspace (List.eq_of_mem_replicate h)
  have hcolumns : c ∉ (row.columns.map Column.text).flatten := by
    intro h
    obtain ⟨text, htext, hc⟩ := List.mem_flatten.1 h
    obtain ⟨col, -, rfl⟩ := List.mem_map.1 htext
    exact col.not_mem_text hspace hdigit hc
  simp only [NetRow.line, NetRow.numbers, List.mem_append, List.mem_cons, hspaces, hname, hcolon,
    row.rxBytes.not_mem hdigit, hcolumns, hrest, or_self, not_false_eq_true]

theorem NetRow.line_noNewline (row : NetRow) : 0x0a ∉ row.line :=
  row.not_mem_line (by decide) (by decide) (by decide) (row.name.not_mem (by decide))
    row.rest_noNewline

theorem NetRow.line_nulFree (row : NetRow) : 0 ∉ row.line :=
  row.not_mem_line (by decide) (by decide) (by decide) row.name_nulFree row.rest_nulFree

theorem NetRow.line_ne_nil (row : NetRow) : row.line ≠ [] := by
  simp [NetRow.line]

/-! ## The table -/

/-- The contents of /proc/net/dev: two header lines and the interfaces; only the last line may
have no newline. -/
structure NetTable where
  first : Bytes
  second : Bytes
  rows : List NetRow
  ended : Bool
  first_ne_nil : first ≠ []
  second_ne_nil : second ≠ []
  headers_noNewline : 0x0a ∉ first ++ second
  headers_nulFree : 0 ∉ first ++ second

namespace NetTable

def text (t : NetTable) : Bytes := unlines t.ended (t.first :: t.second :: t.rows.map NetRow.line)

/-- The interfaces there is room for. -/
def ifaces (t : NetTable) : List NetstatIface := (t.rows.take maxInterfaces).map NetRow.iface

theorem text_nulFree (t : NetTable) : 0 ∉ t.text := by
  have hheaders := t.headers_nulFree
  rw [List.mem_append, not_or] at hheaders
  refine zero_not_mem_unlines fun line hline => ?_
  rcases List.mem_cons.1 hline with rfl | hline
  · exact hheaders.1
  · rcases List.mem_cons.1 hline with rfl | hline
    · exact hheaders.2
    · obtain ⟨row, -, rfl⟩ := List.mem_map.1 hline
      exact row.line_nulFree

/-- Behind the headers the loop comes to the rows. -/
theorem lineStarts_rows (t : NetTable) :
    (lineStarts t.text).drop 2 = lineStarts (unlines t.ended (t.rows.map NetRow.line)) := by
  have hheaders := t.headers_noNewline
  rw [List.mem_append, not_or] at hheaders
  obtain ⟨rest, -, hfirst⟩ := lineStarts_cons hheaders.1 t.first_ne_nil t.ended
    (t.second :: t.rows.map NetRow.line)
  obtain ⟨rest', -, hsecond⟩ := lineStarts_cons hheaders.2 t.second_ne_nil t.ended
    (t.rows.map NetRow.line)
  rw [text, hfirst, hsecond]
  rfl

end NetTable

/-- The loop takes the interfaces there is room for. -/
theorem netLoop_entries (starts : List Bytes) :
    netLoop starts [] = (starts.filterMap netEntry).take maxInterfaces :=
  entries_of_loop (fun ifaces => ifaces) (fun _ => rfl) (fun _ _ _ => rfl) netLine_entry starts []

theorem parseNetDev_table (t : NetTable) {reads : List ReadResult} (hreads : ReadsAll reads t.text)
    (hlen : t.text.length < 8192) (buf : Bytes) :
    parseNetDev (some reads) buf = some t.ifaces := by
  have hfits : (⟨t.text, t.text_nulFree⟩ : CStr).length < 8192 := hlen
  obtain ⟨got, hread, htext⟩ := procReadFile_whole hreads buf hfits
  have hloop : netLoop ((lineStarts t.text).drop 2) [] = t.ifaces := by
    have hentries : (lineStarts (unlines t.ended (t.rows.map NetRow.line))).filterMap netEntry =
        t.rows.filterMap fun row => some row.iface :=
      filterMap_lineStarts (fun row _ => row.line_noNewline) (fun row _ => row.line_ne_nil)
        (fun row _ rest hrest => netEntry_row row hrest) t.ended
    rw [netLoop_entries, t.lineStarts_rows, hentries, List.filterMap_eq_map', NetTable.ifaces,
      List.map_take]
  rw [parseNetDev, hread]
  simp only [htext, hloop]

/-- **What netstat makes of a table**, whatever was collected before: it has the first 32
interfaces with their names and counters, and finds each by its name. -/
theorem netstat_table (before : List NetRead) (r : NetRead) (t : NetTable)
    (reads : List ReadResult) (hfile : r.file = some reads) (hreads : ReadsAll reads t.text)
    (hlen : t.text.length < 8192) :
    let priv := netstatCollects (before ++ [r])
    priv.current.map NetstatIface.raw = t.ifaces ∧
      ∀ name, (netstatGetInterface priv name).map NetstatIface.raw =
        t.ifaces.find? fun iface => iface.name = name := by
  intro priv
  have hsample : Attempts.last NetRead.sample (before ++ [r]) = some (t.ifaces, r.now) := by
    refine Attempts.last_concat_some ?_ before
    rw [NetRead.sample, hfile, parseNetDev_table t hreads hlen r.buf, Option.map_some]
  have hraw : t.ifaces.map NetstatIface.raw = t.ifaces := by
    rw [NetTable.ifaces, List.map_map]
    rfl
  have hcurrent : priv.current.map NetstatIface.raw = t.ifaces := by
    rw [← hraw]
    exact (netstatCollects_last hsample).1
  refine ⟨hcurrent, fun name => ?_⟩
  rw [← hcurrent]
  exact findPrevious_raw priv.current name

/-- The loopback interface, with this many bytes. -/
def loRow (bytes : Nat) : NetRow where
  indent := 4
  name := ⟨(CStr.lit "lo").bytes, by decide, by decide⟩
  lead := 1
  rxBytes := natToken bytes
  rxPackets := ⟨0, natToken 7⟩
  rxErrs := ⟨3, natToken 0⟩
  rxDrop := ⟨3, natToken 0⟩
  rxFifo := ⟨3, natToken 0⟩
  rxFrame := ⟨3, natToken 0⟩
  rxCompressed := ⟨3, natToken 0⟩
  rxMulticast := ⟨3, natToken 0⟩
  txBytes := ⟨0, natToken bytes⟩
  txPackets := ⟨0, natToken 7⟩
  txErrs := ⟨3, natToken 0⟩
  txDrop := ⟨3, natToken 0⟩
  txFifo := ⟨3, natToken 0⟩
  txColls := ⟨3, natToken 0⟩
  txCarrier := ⟨3, natToken 0⟩
  txCompressed := ⟨3, natToken 0⟩
  rest := []
  name_length := by decide
  rest_stops := stops_nil _
  rest_noNewline := by decide
  rest_nulFree := by decide

def loTable : NetTable where
  first := (CStr.lit "Inter-|   Receive").bytes
  second := (CStr.lit " face |bytes    packets").bytes
  rows := [loRow 500]
  ended := true
  first_ne_nil := by decide
  second_ne_nil := by decide
  headers_noNewline := by decide
  headers_nulFree := by decide

theorem netstat_table_lo :
    let r : NetRead := ⟨some [.data loTable.text], [], 9, by decide⟩
    let priv := netstatCollects ([loRead none 5 (by decide)] ++ [r])
    priv.current.map NetstatIface.raw = loTable.ifaces ∧
      ∀ name, (netstatGetInterface priv name).map NetstatIface.raw =
        loTable.ifaces.find? fun iface => iface.name = name :=
  netstat_table [loRead none 5 (by decide)] ⟨some [.data loTable.text], [], 9, by decide⟩ loTable
    _ rfl (.single (by decide)) (by decide)

end Netstat

end Qmem
