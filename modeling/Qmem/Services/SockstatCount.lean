import Qmem.ProcContents
import Qmem.Services.Sockstat

/-!
# What sockstat counts

The sockets of the TCP table are counted by the loop that stores them, which ends when the array
of 1024 entries is full; the lines of the other tables are counted in the first 65535 bytes. So
the numbers are right as long as the tables keep below that.

Main result: `sockstat_counts_right_iff`.
-/

namespace Qmem

open CLib

namespace Sockstat

/-! ## The loop over the TCP table -/

/-- The state of the socket, if the line is one. -/
def socketState (line : Bytes) : Option UInt32 :=
  match sscanf tcpFormat (cstr (line ++ [0])).bytes with
  | [.unsigned _, .text _, .text _, .unsigned state, .unsigned _, .unsigned _,
      _, _, _, _, _, .unsigned _] => some state.toUInt32
  | _ => none

theorem tcpLine_state (priv : SockstatPriv) (line : Bytes) :
    (tcpLine priv line).summary = ((socketState line).map priv.summary.countTcp).getD priv.summary ∧
      (tcpLine priv line).sockets.length =
        priv.sockets.length + if (socketState line).isSome then 1 else 0 := by
  rw [tcpLine]
  split
  · case h_1 hfields =>
    rw [socketState, hfields]
    simp
  · case h_2 hno =>
    have hstate : socketState line = none := by
      rw [socketState]
      split
      · case h_1 hfields => exact (hno _ _ _ _ _ _ _ _ _ _ _ _ hfields).elim
      · rfl
    rw [hstate]
    exact ⟨rfl, rfl⟩

theorem tcpLoop_states (lines : List Bytes) (priv : SockstatPriv) :
    (tcpLoop lines priv).summary =
      ((lines.filterMap socketState).take (maxSockets - priv.sockets.length)).foldl
        SockstatSummary.countTcp priv.summary := by
  induction lines generalizing priv with
  | nil =>
    rw [List.filterMap_nil, List.take_nil]
    rfl
  | cons line lines ih =>
    obtain ⟨hsummary, hlen⟩ := tcpLine_state priv line
    rw [tcpLoop, List.filterMap_cons]
    split
    · case isTrue hroom =>
      rw [ih, hsummary, hlen]
      cases socketState line with
      | none => rfl
      | some state =>
        rw [Option.isSome_some, if_pos rfl, show maxSockets - priv.sockets.length =
          maxSockets - (priv.sockets.length + 1) + 1 by omega, List.take_succ_cons]
        rfl
    · case isFalse hfull =>
      rw [Nat.sub_eq_zero_of_le (by omega), List.take_zero]
      rfl

/-! ## Lines of the TCP table -/

/-- The characters of an address. -/
def isAddrChar (c : UInt8) : Bool := isHexDigit c || c == 0x3a

abbrev Addr := Token isAddrChar
abbrev Digits := Token Json.isDigit
abbrev HexDigits := Token isHexDigit

/-- The spaces before a field: one, and so many more. -/
def gap (more : Nat) : Bytes := List.replicate (more + 1) 0x20

/-- A line of the table, without its newline: the fields of the format, with spaces before them,
and whatever comes behind another space. -/
structure TcpRow where
  indent : Nat
  sl : Digits
  localAddr : Addr
  remAddr : Addr
  state : HexDigits
  txQueue : HexDigits
  rxQueue : HexDigits
  timerActive : HexDigits
  timerLen : HexDigits
  retrans : HexDigits
  uid : Digits
  timeout : Digits
  inode : Digits
  gaps : Fin 9 → Nat
  rest : Bytes
  local_le : localAddr.bytes.length ≤ 63
  rem_le : remAddr.bytes.length ≤ 63
  state_lt : hexValue state.bytes < 2 ^ 32
  rest_noNewline : 0x0a ∉ rest
  rest_nulFree : 0 ∉ rest

/-- The fields from the state on, with `s` behind them. -/
def TcpRow.numbers (row : TcpRow) (s : Bytes) : Bytes :=
  gap (row.gaps 2) ++ (row.state.bytes ++ (gap (row.gaps 3) ++ (row.txQueue.bytes ++
    (0x3a :: (row.rxQueue.bytes ++ (gap (row.gaps 4) ++ (row.timerActive.bytes ++
      (0x3a :: (row.timerLen.bytes ++ (gap (row.gaps 5) ++ (row.retrans.bytes ++
        (gap (row.gaps 6) ++ (row.uid.bytes ++ (gap (row.gaps 7) ++ (row.timeout.bytes ++
          (gap (row.gaps 8) ++ (row.inode.bytes ++ s)))))))))))))))))

def TcpRow.fields (row : TcpRow) (s : Bytes) : Bytes :=
  List.replicate row.indent 0x20 ++ (row.sl.bytes ++ (0x3a :: (gap (row.gaps 0) ++
    (row.localAddr.bytes ++ (gap (row.gaps 1) ++ (row.remAddr.bytes ++ row.numbers s))))))

def TcpRow.line (row : TcpRow) : Bytes := row.fields (0x20 :: row.rest)

/-- The state of the socket. -/
def TcpRow.stateValue (row : TcpRow) : UInt32 := .ofNat (hexValue row.state.bytes)

/-! ## Reading a line -/

theorem spaces_isspace (n : Nat) : ∀ c ∈ List.replicate n (0x20 : UInt8), isspace c = true := by
  intro c hc
  rw [List.eq_of_mem_replicate hc]
  decide

theorem gap_isspace (more : Nat) : ∀ c ∈ gap more, isspace c = true := spaces_isspace (more + 1)

theorem stops_gap {p : UInt8 → Bool} (h : p 0x20 = false) (more : Nat) (s : Bytes) :
    Stops p (gap more ++ s) := by
  intro c hc
  rw [← Option.some.inj hc]
  exact h

theorem stops_colon {p : UInt8 → Bool} (h : p 0x3a = false) (s : Bytes) :
    Stops p (0x3a :: s) := by
  intro c hc
  rw [← Option.some.inj hc]
  exact h

theorem isWordChar_of_isAddrChar : ∀ c, isAddrChar c = true → isWordChar c = true :=
  forall_byte (by decide +kernel)

/-- What `sscanf` finds in a line. -/
def TcpRow.scanned (row : TcpRow) : List Scanned := [
  .unsigned (ulong false (Json.natValue row.sl.bytes)),
  .text row.localAddr.bytes,
  .text row.remAddr.bytes,
  .unsigned (ulong false (hexValue row.state.bytes)),
  .unsigned (ulong false (hexValue row.txQueue.bytes)),
  .unsigned (ulong false (hexValue row.rxQueue.bytes)),
  .unsigned (ulong false (hexValue row.timerActive.bytes)),
  .unsigned (ulong false (hexValue row.timerLen.bytes)),
  .unsigned (ulong false (hexValue row.retrans.bytes)),
  .unsigned (ulong false (Json.natValue row.uid.bytes)),
  .unsigned (ulong false (Json.natValue row.timeout.bytes)),
  .unsigned (ulong false (Json.natValue row.inode.bytes))]

theorem sscanf_row (row : TcpRow) {s : Bytes} (hs : Stops Json.isDigit s) :
    sscanf tcpFormat (row.fields s) = row.scanned := by
  have hhex (more : Nat) (s : Bytes) : Stops hexGoesOn (gap more ++ s) :=
    stops_gap (by decide) more s
  have hdigit (more : Nat) (s : Bytes) : Stops Json.isDigit (gap more ++ s) :=
    stops_gap (by decide) more s
  have hword (more : Nat) (s : Bytes) : Stops isWordChar (gap more ++ s) :=
    stops_gap (by decide) more s
  have hcolon (s : Bytes) : Stops hexGoesOn (0x3a :: s) := stops_colon (by decide) s
  rw [tcpFormat, TcpRow.fields, TcpRow.numbers,
    sscanf_cons (scan_unsigned (spaces_isspace _) row.sl (stops_colon (by decide) _)),
    sscanf_cons (scan_char 0x3a _),
    sscanf_string (gap_isspace _) _ row.localAddr isWordChar_of_isAddrChar row.local_le
      (hword _ _),
    sscanf_string (gap_isspace _) _ row.remAddr isWordChar_of_isAddrChar row.rem_le
      (hword _ _),
    sscanf_hex (gap_isspace _) _ row.state (hhex _ _),
    sscanf_hex (gap_isspace _) _ row.txQueue (hcolon _),
    sscanf_char_hex _ _ row.rxQueue (hhex _ _),
    sscanf_hex (gap_isspace _) _ row.timerActive (hcolon _),
    sscanf_char_hex _ _ row.timerLen (hhex _ _),
    sscanf_hex (gap_isspace _) _ row.retrans (hhex _ _),
    sscanf_unsigned (gap_isspace _) _ row.uid (hdigit _ _),
    sscanf_unsigned (gap_isspace _) _ row.timeout (hdigit _ _),
    sscanf_unsigned (gap_isspace _) _ row.inode hs]
  rfl

theorem TcpRow.not_mem_line (row : TcpRow) {c : UInt8} (hspace : c ≠ 0x20) (hcolon : c ≠ 0x3a)
    (hhex : isHexDigit c = false) (hdigit : Json.isDigit c = false) (hrest : c ∉ row.rest) :
    c ∉ row.line := by
  have haddr : isAddrChar c = false := by simp [isAddrChar, hhex, hcolon]
  have hgap (more : Nat) : c ∉ gap more := fun h => hspace (List.eq_of_mem_replicate h)
  have hindent : c ∉ List.replicate row.indent (0x20 : UInt8) :=
    fun h => hspace (List.eq_of_mem_replicate h)
  simp only [TcpRow.line, TcpRow.fields, TcpRow.numbers, List.mem_append, List.mem_cons, hindent,
    hgap, hspace, hcolon, hrest, Token.not_mem _ haddr, Token.not_mem _ hhex,
    Token.not_mem _ hdigit, or_self, not_false_eq_true]

theorem TcpRow.line_noNewline (row : TcpRow) : 0x0a ∉ row.line :=
  row.not_mem_line (by decide) (by decide) (by decide) (by decide) row.rest_noNewline

theorem TcpRow.line_nulFree (row : TcpRow) : 0 ∉ row.line :=
  row.not_mem_line (by decide) (by decide) (by decide) (by decide) row.rest_nulFree

theorem TcpRow.line_ne_nil (row : TcpRow) : row.line ≠ [] := by
  simp [TcpRow.line, TcpRow.fields]

/-- The state that is read in a line of the table. -/
theorem socketState_row (row : TcpRow) (newline : Bool) :
    socketState (row.line ++ if newline then [0x0a] else []) = some row.stateValue := by
  have hline : row.line ++ (if newline then [0x0a] else []) =
      row.fields (0x20 :: (row.rest ++ if newline then [0x0a] else [])) := by
    simp only [TcpRow.line, TcpRow.fields, TcpRow.numbers, List.append_assoc, List.cons_append]
  have hfree : 0 ∉ row.line ++ (if newline then [0x0a] else []) := by
    rw [List.mem_append, not_or]
    exact ⟨row.line_nulFree, by split <;> decide⟩
  have hcstr : (cstr (row.line ++ (if newline then [0x0a] else []) ++ [0])).bytes =
      row.line ++ if newline then [0x0a] else [] :=
    congrArg CStr.bytes (CStr.cstr_terminated ⟨_, hfree⟩)
  have hstate : (ulong false (hexValue row.state.bytes)).toUInt32 = row.stateValue := by
    have hlt := row.state_lt
    rw [ulong, if_neg (by omega), if_neg Bool.false_ne_true, UInt64.toUInt32_ofNat']
    rfl
  have hstops : Stops Json.isDigit (0x20 :: (row.rest ++ if newline then [0x0a] else [])) := by
    intro c hc
    rw [← Option.some.inj hc]
    rfl
  rw [socketState, hcstr, hline, sscanf_row row hstops, TcpRow.scanned]
  exact congrArg some hstate

/-! ## The table -/

/-- The contents of /proc/net/tcp: a header and lines of the table, each of them short enough for
the buffer. -/
structure TcpTable where
  header : Bytes
  rows : List TcpRow
  ended : Bool
  header_ne_nil : header ≠ []
  header_noNewline : 0x0a ∉ header
  header_le : header.length ≤ 510
  rows_le : ∀ row ∈ rows, row.line.length ≤ 510

def TcpTable.text (t : TcpTable) : Bytes := unlines t.ended (t.header :: t.rows.map TcpRow.line)

theorem socketStates_rows {rows : List TcpRow} (hrows : ∀ row ∈ rows, row.line.length ≤ 510)
    (ended : Bool) :
    (fgetsAll 512 (unlines ended (rows.map TcpRow.line))).filterMap socketState =
      rows.map TcpRow.stateValue := by
  induction rows with
  | nil => rfl
  | cons row rows ih =>
    obtain ⟨hrow, hrest⟩ := List.forall_mem_cons.1 hrows
    obtain ⟨newline, hpieces⟩ := fgetsAll_unlines ended row.line_noNewline
      (show row.line.length + 1 < 512 by omega) row.line_ne_nil (rows.map TcpRow.line)
    rw [List.map_cons, hpieces, List.filterMap_cons_some (socketState_row row newline), ih hrest,
      List.map_cons]

/-- The loop over the rows: it takes as many as there is room for. -/
theorem tcpLoop_rows {rows : List TcpRow} (hrows : ∀ row ∈ rows, row.line.length ≤ 510)
    (ended : Bool) (priv : SockstatPriv) :
    (tcpLoop (fgetsAll 512 (unlines ended (rows.map TcpRow.line))) priv).summary =
      ((rows.take (maxSockets - priv.sockets.length)).map TcpRow.stateValue).foldl
        SockstatSummary.countTcp priv.summary := by
  rw [tcpLoop_states, socketStates_rows hrows, List.map_take]

theorem parseTcpDetailed_summary (t : TcpTable) (priv : SockstatPriv) :
    (parseTcpDetailed (some t.text) priv).summary =
      ((t.rows.take (maxSockets - priv.sockets.length)).map TcpRow.stateValue).foldl
        SockstatSummary.countTcp priv.summary := by
  have hheader := t.header_le
  obtain ⟨newline, hpieces⟩ := fgetsAll_unlines t.ended t.header_noNewline
    (show t.header.length + 1 < 512 by omega) t.header_ne_nil (t.rows.map TcpRow.line)
  rw [parseTcpDetailed, Option.getD_some, TcpTable.text, hpieces]
  exact tcpLoop_rows t.rows_le t.ended priv

/-- The summary of sockets in these states. -/
theorem foldl_countTcp (states : List UInt32) :
    states.foldl SockstatSummary.countTcp emptySummary = {
      tcpEstablished := .ofNat (states.count 1)
      tcpTimeWait := .ofNat (states.count 6)
      tcpCloseWait := .ofNat (states.count 8)
      tcpListen := .ofNat (states.count 10)
      tcpTotal := .ofNat states.length
      udpTotal := 0
      unixTotal := 0 } := by
  induction states using List.reverseRecOn with
  | nil => rfl
  | append_singleton states state ih =>
    rw [List.foldl_append, ih]
    simp only [List.foldl_cons, List.foldl_nil, SockstatSummary.countTcp, List.count_append,
      List.length_append, List.length_singleton, Int32.ofNat_add, List.count_singleton]
    split_ifs <;> simp_all

/-! ## The other tables -/

theorem foldl_countLine (starts : List Bytes) :
    (starts.foldl (countLine 1) (0, 0)) = (min 1 starts.length, starts.length - 1) := by
  induction starts using List.reverseRecOn with
  | nil => rfl
  | append_singleton starts start ih =>
    rw [List.foldl_append, ih, List.length_append, List.length_singleton]
    simp only [List.foldl_cons, List.foldl_nil, countLine]
    split
    · simp only [Prod.mk.injEq]
      omega
    · simp only [Prod.mk.injEq]
      omega

/-- The number of entries of a table: its lines, but for the header. -/
def entries (t : TextLines) : Nat := t.lines.tail.length

/-- What `count_lines` makes of a table. -/
def counted (t : TextLines) : Nat := (lineStarts (t.text.take 65535)).length - 1

theorem countLines_text {reads : List ReadResult} {t : TextLines} (h : ReadsAll reads t.text)
    (buf : Bytes) : countLines (some reads) buf 1 = .ofNat (counted t) := by
  have htext : ReadsAll reads (CStr.mk t.text (zero_not_mem_unlines t.nulFree)).bytes := h
  have hread := procReadFile_contents htext buf 65536
  rw [countLines, counted]
  cases hfile : procReadFile (some reads) buf 65536 with
  | mk result count =>
    rw [hfile] at hread
    obtain ⟨rfl, hbytes⟩ := hread
    simp only [hbytes, foldl_countLine]
    rfl

theorem counted_lt (t : TextLines) : counted t ≤ 65535 := by
  have hlen := lineStarts_length_le (t.text.take 65535)
  rw [List.length_take] at hlen
  rw [counted]
  omega

theorem counted_le (t : TextLines) : counted t ≤ entries t := by
  have hle := lineStarts_take_le t.text 65535
  rw [TextLines.text, lineStarts_unlines t.noNewline t.last] at hle
  rw [counted, entries, List.length_tail]
  exact Nat.sub_le_sub_right hle 1

theorem counted_eq_iff (t : TextLines) :
    counted t = entries t ↔ LastStartsWithin 65535 t.lines := by
  have hiff := lineStarts_take_iff t.noNewline t.last 65535
  rw [counted, entries, List.length_tail, TextLines.text]
  constructor
  · intro h hne
    by_cases hone : t.lines.length = 1
    · obtain ⟨line, hline⟩ := List.length_eq_one_iff.1 hone
      rw [hline]
      exact Nat.zero_lt_succ 65534
    · have hpos := List.length_pos_of_ne_nil hne
      exact hiff.1 (by omega) hne
  · intro h
    rw [hiff.2 h]

/-! ## The collection -/

/-- The numbers of the summary are those of the tables. -/
structure CountsRight (rows : List TcpRow) (udp udp6 unix : TextLines) (s : SockstatSummary) :
    Prop where
  total : s.tcpTotal.toInt = rows.length
  established : s.tcpEstablished.toInt = (rows.map TcpRow.stateValue).count 1
  timeWait : s.tcpTimeWait.toInt = (rows.map TcpRow.stateValue).count 6
  closeWait : s.tcpCloseWait.toInt = (rows.map TcpRow.stateValue).count 8
  listen : s.tcpListen.toInt = (rows.map TcpRow.stateValue).count 10
  udp : s.udpTotal.toInt = entries udp + entries udp6
  unix : s.unixTotal.toInt = entries unix

/-- Files with these contents. -/
structure SockFiles.Have (files : SockFiles) (tcp : TcpTable) (udp udp6 unix : TextLines) :
    Prop where
  tcp : files.tcp = some tcp.text
  udp : ∃ reads, files.udp = some reads ∧ ReadsAll reads udp.text
  udp6 : ∃ reads, files.udp6 = some reads ∧ ReadsAll reads udp6.text
  unix : ∃ reads, files.unix = some reads ∧ ReadsAll reads unix.text

theorem sockstatCollect_summary {files : SockFiles} {tcp : TcpTable} {udp udp6 unix : TextLines}
    (h : files.Have tcp udp udp6 unix) (priv : SockstatPriv) :
    let states := (tcp.rows.take maxSockets).map TcpRow.stateValue
    (sockstatCollect files priv).summary = {
      tcpEstablished := .ofNat (states.count 1)
      tcpTimeWait := .ofNat (states.count 6)
      tcpCloseWait := .ofNat (states.count 8)
      tcpListen := .ofNat (states.count 10)
      tcpTotal := .ofNat states.length
      udpTotal := .ofNat (counted udp + counted udp6)
      unixTotal := .ofNat (counted unix) } := by
  intro states
  obtain ⟨udpReads, hudp, hudpText⟩ := h.udp
  obtain ⟨udp6Reads, hudp6, hudp6Text⟩ := h.udp6
  obtain ⟨unixReads, hunix, hunixText⟩ := h.unix
  have htcp := parseTcpDetailed_summary tcp {
    summary := emptySummary, previousSummary := priv.summary, sockets := [], hasPrevious := true }
  rw [List.length_nil, Nat.sub_zero, foldl_countTcp] at htcp
  simp only [sockstatCollect, mapInodesToPids, h.tcp, htcp, hudp, hudp6, hunix,
    countLines_text hudpText, countLines_text hudp6Text, countLines_text hunixText,
    Int32.ofNat_add, states]

/-- **sockstat's counts** are those of the tables exactly when the TCP table has no more than 1024
lines and the last line of each other table starts within the first 65535 bytes. -/
theorem sockstat_counts_right_iff (files : SockFiles) (tcp : TcpTable)
    (udp udp6 unix : TextLines) (h : files.Have tcp udp udp6 unix) (priv : SockstatPriv) :
    CountsRight tcp.rows udp udp6 unix (sockstatCollect files priv).summary ↔
      tcp.rows.length ≤ 1024 ∧ LastStartsWithin 65535 udp.lines ∧
        LastStartsWithin 65535 udp6.lines ∧ LastStartsWithin 65535 unix.lines := by
  have hudp := counted_le udp
  have hudp6 := counted_le udp6
  have hunixlt := counted_lt unix
  have hudplt := counted_lt udp
  have hudp6lt := counted_lt udp6
  rw [sockstatCollect_summary h, ← counted_eq_iff, ← counted_eq_iff, ← counted_eq_iff]
  constructor
  · intro hright
    have htotal := hright.total
    have hudpTotal := hright.udp
    have hunixTotal := hright.unix
    simp only [List.length_map, List.length_take] at htotal
    rw [Int32.toInt_ofNat_of_lt (by have : maxSockets = 1024 := rfl; omega)] at htotal
    rw [Int32.toInt_ofNat_of_lt (by omega)] at hudpTotal hunixTotal
    have hmax : maxSockets = 1024 := rfl
    omega
  · rintro ⟨hrows, hudpEq, hudp6Eq, hunixEq⟩
    have hsmall (c : UInt32) : (tcp.rows.map TcpRow.stateValue).count c < 2 ^ 31 := by
      have hle := List.count_le_length (a := c) (l := tcp.rows.map TcpRow.stateValue)
      rw [List.length_map] at hle
      omega
    rw [List.take_of_length_le (show tcp.rows.length ≤ maxSockets from hrows)]
    refine ⟨?_, Int32.toInt_ofNat_of_lt (hsmall 1), Int32.toInt_ofNat_of_lt (hsmall 6),
      Int32.toInt_ofNat_of_lt (hsmall 8), Int32.toInt_ofNat_of_lt (hsmall 10), ?_, ?_⟩
    · simp only [List.length_map]
      exact Int32.toInt_ofNat_of_lt (by omega)
    · simp only [← hudpEq, ← hudp6Eq]
      rw [Int32.toInt_ofNat_of_lt (by omega)]
      exact_mod_cast rfl
    · rw [← hunixEq]
      exact Int32.toInt_ofNat_of_lt (by omega)

/-! ## Some sockets -/

def litToken {p : UInt8 → Bool} (s : String)
    (h : (CStr.lit s).bytes ≠ [] ∧ ∀ c ∈ (CStr.lit s).bytes, p c = true := by decide) : Token p :=
  ⟨(CStr.lit s).bytes, h.1, h.2⟩

/-- A listening socket. -/
def listening : TcpRow where
  indent := 3
  sl := litToken "0"
  localAddr := litToken "0100007F:1F90"
  remAddr := litToken "00000000:0000"
  state := litToken "0A"
  txQueue := litToken "00000000"
  rxQueue := litToken "00000000"
  timerActive := litToken "00"
  timerLen := litToken "00000000"
  retrans := litToken "00000000"
  uid := litToken "1000"
  timeout := litToken "0"
  inode := litToken "31337"
  gaps _ := 0
  rest := (CStr.lit "1 0000000000000000 100 0 0 10 0").bytes
  local_le := by decide
  rem_le := by decide
  state_lt := by decide
  rest_noNewline := by decide
  rest_nulFree := by decide

/-- So many of them. -/
def listeners (n : Nat) : TcpTable where
  header := (CStr.lit "  sl  local_address rem_address   st").bytes
  rows := List.replicate n listening
  ended := true
  header_ne_nil := by decide
  header_noNewline := by decide
  header_le := by decide
  rows_le row hrow := by
    rw [List.eq_of_mem_replicate hrow]
    decide +kernel

/-- A table without entries. -/
def headerOnly : TextLines where
  lines := [(CStr.lit "Num").bytes]
  ended := true
  noNewline := by decide
  nulFree := by decide
  last h := absurd h (by decide)

def listenerFiles (n : Nat) : SockFiles where
  tcp := some (listeners n).text
  udp := some [.data headerOnly.text]
  udp6 := some [.data headerOnly.text]
  unix := some [.data headerOnly.text]
  procs := none
  stack := []

theorem listenerFiles_have (n : Nat) :
    (listenerFiles n).Have (listeners n) headerOnly headerOnly headerOnly := by
  have hreads : ∃ reads, some [ReadResult.data headerOnly.text] = some reads ∧
      ReadsAll reads headerOnly.text := ⟨_, rfl, .data (by decide) .done⟩
  exact ⟨rfl, hreads, hreads, hreads⟩

theorem sockstat_counts_right_few :
    CountsRight (listeners 3).rows headerOnly headerOnly headerOnly
      (sockstatCollect (listenerFiles 3) sockstatInit).summary :=
  (sockstat_counts_right_iff (listenerFiles 3) (listeners 3) headerOnly headerOnly headerOnly
    (listenerFiles_have 3) sockstatInit).2 ⟨by decide, by decide, by decide, by decide⟩

/-- One socket more than the array has room for. -/
theorem sockstat_counts_wrong :
    (listenerFiles 1025).Have (listeners 1025) headerOnly headerOnly headerOnly ∧
      ¬ CountsRight (listeners 1025).rows headerOnly headerOnly headerOnly
        (sockstatCollect (listenerFiles 1025) sockstatInit).summary := by
  refine ⟨listenerFiles_have 1025, fun h => ?_⟩
  have htotal := h.total
  rw [sockstatCollect_summary (listenerFiles_have 1025)] at htotal
  simp only [List.length_map, List.length_take, listeners, List.length_replicate] at htotal
  exact absurd htotal (by decide)

end Sockstat

end Qmem
