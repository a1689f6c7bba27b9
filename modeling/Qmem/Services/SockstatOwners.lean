import Qmem.Lib.Assign
import Qmem.Lib.Hex
import Qmem.Lib.Table
import Qmem.Services.SockstatCount

/-!
# The sockets that sockstat lists

The kernel prints an address as the word it has in memory, in hexadecimal; what is shown of it are
the bytes in the order of the network and the port. A socket belongs to the last process, in the
order of the scan, that has it among its descriptors, and carries the last name that could be read
of such a process.

Main results: `parseAddress_hex`, `sockstat_sockets`.
-/

namespace Qmem

open CLib

namespace Sockstat

/-! ## Addresses -/

/-- An address and a port, the bytes of the address in the order of the network. -/
@[ext] structure Endpoint where
  a : UInt8
  b : UInt8
  c : UInt8
  d : UInt8
  port : UInt16

namespace Endpoint

/-- The address as a word in memory. -/
def word (e : Endpoint) : Nat :=
  e.a.toNat + 256 * (e.b.toNat + 256 * (e.c.toNat + 256 * e.d.toNat))

theorem word_lt (e : Endpoint) : e.word < 2 ^ 32 := by
  have ha := e.a.toNat_lt
  have hb := e.b.toNat_lt
  have hc := e.c.toNat_lt
  have hd := e.d.toNat_lt
  rw [word]
  omega

/-- How the kernel prints it: `%08X:%04X`. -/
def hex (e : Endpoint) : Bytes := hexFixed 8 e.word ++ 0x3a :: hexFixed 4 e.port.toNat

/-- How it is shown: `a.b.c.d:port`. -/
def dotted (e : Endpoint) : Bytes :=
  decNat e.a.toNat ++ 0x2e :: (decNat e.b.toNat ++ 0x2e :: (decNat e.c.toNat ++ 0x2e ::
    (decNat e.d.toNat ++ 0x3a :: decNat e.port.toNat)))

theorem dotted_nulFree (e : Endpoint) : 0 ∉ e.dotted := by
  have hdec (n : Nat) : 0 ∉ decNat n := (natToken n).not_mem (by decide)
  simp [dotted, hdec]

def shown (e : Endpoint) : CStr := ⟨e.dotted, e.dotted_nulFree⟩

theorem length_dotted_le (e : Endpoint) : e.dotted.length ≤ 63 := by
  have hbyte (x : UInt8) : (decNat x.toNat).length ≤ 3 :=
    Json.decNat_length_le (by decide) (Nat.lt_trans x.toNat_lt (by decide))
  have hport : (decNat e.port.toNat).length ≤ 5 :=
    Json.decNat_length_le (by decide) (Nat.lt_trans e.port.toNat_lt (by decide))
  have ha := hbyte e.a
  have hb := hbyte e.b
  have hc := hbyte e.c
  have hd := hbyte e.d
  simp only [dotted, List.length_append, List.length_cons]
  omega

/-- A number ends before what is no digit. -/
theorem decNat_split {c : UInt8} (hc : Json.isDigit c = false) {m n : Nat} {s s' : Bytes}
    (h : decNat m ++ c :: s = decNat n ++ c :: s') : m = n ∧ s = s' := by
  have hnot (n : Nat) : c ∉ decNat n := (natToken n).not_mem hc
  obtain ⟨hdigits, hrest⟩ := append_cons_cancel (hnot m) (hnot n) h
  have hvalue := congrArg Json.natValue hdigits
  rw [Json.natValue_decNat, Json.natValue_decNat] at hvalue
  exact ⟨hvalue, hrest⟩

/-- Different endpoints are shown differently. -/
theorem dotted_injective {e e' : Endpoint} (h : e.dotted = e'.dotted) : e = e' := by
  rw [dotted, dotted] at h
  obtain ⟨ha, h⟩ := decNat_split (by decide) h
  obtain ⟨hb, h⟩ := decNat_split (by decide) h
  obtain ⟨hc, h⟩ := decNat_split (by decide) h
  obtain ⟨hd, h⟩ := decNat_split (by decide) h
  have hport := congrArg Json.natValue h
  rw [Json.natValue_decNat, Json.natValue_decNat] at hport
  exact Endpoint.ext (UInt8.toNat_inj.1 ha) (UInt8.toNat_inj.1 hb) (UInt8.toNat_inj.1 hc)
    (UInt8.toNat_inj.1 hd) (UInt16.toNat_inj.1 hport)

/-- The bytes of the word are those of the address. -/
theorem inetNtoa_word (e : Endpoint) :
    inetNtoa (.ofNat e.word) = decNat e.a.toNat ++ 0x2e :: (decNat e.b.toNat ++ 0x2e ::
      (decNat e.c.toNat ++ 0x2e :: decNat e.d.toNat)) := by
  have ha := e.a.toNat_lt
  have hb := e.b.toNat_lt
  have hc := e.c.toNat_lt
  have hd := e.d.toNat_lt
  have hword : (UInt32.ofNat e.word).toNat = e.word := UInt32.toNat_ofNat_of_lt e.word_lt
  have hbytes : e.word % 256 = e.a.toNat ∧ e.word / 256 % 256 = e.b.toNat ∧
      e.word / 65536 % 256 = e.c.toNat ∧ e.word / 16777216 = e.d.toNat := by
    rw [word]
    omega
  rw [inetNtoa, hword, hbytes.1, hbytes.2.1, hbytes.2.2.1, hbytes.2.2.2]

end Endpoint

/-- A number that fits a long, as an unsigned int. -/
theorem ulong_toUInt32 {n : Nat} (hn : n < 2 ^ 32) : (ulong false n).toUInt32 = .ofNat n := by
  rw [ulong, if_neg (by omega), if_neg Bool.false_ne_true, UInt64.toUInt32_ofNat']

/-- What the kernel prints of an endpoint is shown as an address and a port, and different
endpoints differently. -/
theorem parseAddress_hex (e : Endpoint) :
    parseAddress e.hex = e.shown ∧ ∀ e', parseAddress e'.hex = parseAddress e.hex ↔ e' = e := by
  have hshown (e : Endpoint) : parseAddress e.hex = e.shown := by
    have hcolon : Stops hexGoesOn (0x3a :: hexFixed 4 e.port.toNat) := stops_colon (by decide) _
    have haddr : Directive.hex.scan (e.hex) =
        some ([.unsigned (ulong false (hexValue (hexToken 7 e.word).bytes))],
          0x3a :: hexFixed 4 e.port.toNat) := scan_hex no_gap (hexToken 7 e.word) hcolon
    have hend : Stops hexGoesOn [] := fun c hc => absurd hc (Option.not_mem_none c)
    have hport := sscanf_char_hex [] 0x3a (hexToken 3 e.port.toNat) hend
    have hportLt : e.port.toNat < 2 ^ 32 := Nat.lt_trans e.port.toNat_lt (by decide)
    rw [List.append_nil, hexValue_hexToken (Nat.lt_of_lt_of_le e.port.toNat_lt (by decide)),
      sscanf] at hport
    rw [hexValue_hexToken (Nat.lt_of_lt_of_le e.word_lt (by decide))] at haddr
    have hscan : sscanf [.hex, .char 0x3a, .hex] e.hex =
        [.unsigned (ulong false e.word), .unsigned (ulong false e.port.toNat)] := by
      rw [sscanf_cons haddr, List.singleton_append]
      exact congrArg _ hport
    have htext : e.dotted = inetNtoa (.ofNat e.word) ++ 0x3a :: decNat e.port.toNat := by
      simp only [Endpoint.inetNtoa_word, Endpoint.dotted, List.append_assoc, List.cons_append]
    have hportNat : (UInt32.ofNat e.port.toNat).toNat = e.port.toNat :=
      UInt32.toNat_ofNat_of_lt hportLt
    rw [parseAddress, hscan]
    simp only [ulong_toUInt32 e.word_lt, ulong_toUInt32 hportLt]
    rw [hportNat, ← htext]
    exact (congrArg (CStr.cut · 63) (CStr.cstr_terminated e.shown)).trans
      (CStr.cut_eq_self e.length_dotted_le)
  refine ⟨hshown e, fun e' => ⟨fun h => ?_, fun h => by rw [h]⟩⟩
  rw [hshown, hshown] at h
  exact Endpoint.dotted_injective (congrArg CStr.bytes h)

/-! ## Descriptors -/

/-- What a descriptor links to, as far as it matters. -/
inductive FdLink where
  | socket (inode : UInt32)
  | other (target : Bytes) (notSocket : ¬ (CStr.lit "socket:[").bytes <+: target)

namespace FdLink

def target : FdLink → Bytes
  | socket inode => (CStr.lit "socket:[").bytes ++ (decNat inode.toNat ++ [0x5d])
  | other target _ => target

/-- Is it this socket? -/
def opens (inode : UInt32) : FdLink → Bool
  | socket inode' => inode' = inode
  | other _ _ => false

end FdLink

/-- The name of a process. -/
structure ProcName where
  text : CStr
  length_le : text.length ≤ 15
  noNewline : 0x0a ∉ text.bytes

/-- A process with its descriptors, if their directory can be opened, and its name, if that can be
read. -/
structure Holder where
  pid : Int32
  links : Option (List FdLink)
  name : Option ProcName
  comm : ProcFile
  comm_reads : comm = none ∧ name = none ∨
    ∃ n reads, comm = some reads ∧ name = some n ∧ ReadsAll reads (n.text.bytes ++ [0x0a])

namespace Holder

def proc (p : Holder) : SockProc where
  pid := p.pid
  fds := p.links.map (List.map FdLink.target)
  comm := p.comm

def holds (p : Holder) (inode : UInt32) : Bool := (p.links.getD []).any (FdLink.opens inode)

end Holder

/-- The name is what is left of its line. -/
theorem ProcName.upTo_newline (n : ProcName) {line : CStr}
    (hline : line.bytes = n.text.bytes ++ [0x0a]) :
    ((line.cut 15).upTo 0x0a).cut 15 = n.text := by
  have hlen : n.text.bytes.length ≤ 15 := n.length_le
  have hall : ∀ c ∈ n.text.bytes, decide (c ≠ 0x0a) = true := by
    intro c hc
    simp only [decide_eq_true_eq]
    rintro rfl
    exact n.noNewline hc
  have hend : ([0x0a].take (15 - n.text.bytes.length)).takeWhile
      (fun c : UInt8 => decide (c ≠ 0x0a)) = [] := by
    cases 15 - n.text.bytes.length <;> simp
  have hword : (line.bytes.take 15).takeWhile (· ≠ 0x0a) = n.text.bytes := by
    rw [hline, List.take_append, List.take_of_length_le hlen, List.takeWhile_append_of_pos hall,
      hend, List.append_nil]
  have hupTo : (line.cut 15).upTo 0x0a = n.text := CStr.ext hword
  rw [hupTo, CStr.cut_eq_self n.length_le]

/-- What is stored of a socket that a process has open. -/
theorem foundIn_holder (s : SocketEntry) (p : Holder) (stack : Bytes) :
    s.foundIn p.proc stack =
      { s with pid := p.pid, cmd := (p.name.map ProcName.text).getD s.cmd } := by
  rcases p.comm_reads with ⟨hcomm, hname⟩ | ⟨n, reads, hcomm, hname, hreads⟩
  · rw [SocketEntry.foundIn, Holder.proc, hcomm, hname]
    rfl
  · have htext : 0 ∉ n.text.bytes ++ [0x0a] := by
      rw [List.mem_append, not_or]
      exact ⟨n.text.nulFree, by decide⟩
    set line : CStr := ⟨n.text.bytes ++ [0x0a], htext⟩ with hline
    have hlineReads : ReadsAll reads line.bytes := hreads
    obtain ⟨hcount, hbuf⟩ := procReadFile_contents hlineReads stack 16
    obtain ⟨k, hk⟩ : ∃ k, (line.bytes.take (16 - 1)).length = k + 1 := by
      refine Nat.exists_eq_succ_of_ne_zero ?_
      simp [hline]
    rw [hk] at hcount
    have hread : procReadFile (some reads) stack 16 =
        ((procReadFile (some reads) stack 16).1, some (k + 1)) := Prod.ext rfl hcount
    rw [SocketEntry.foundIn, Holder.proc, hcomm, hname, hread]
    have hstored : ((line.cut (16 - 1)).upTo 0x0a).cut 15 = n.text := n.upTo_newline rfl
    simp only [hbuf, hstored, Option.map_some, Option.getD_some]

/-- What one descriptor makes of a socket. -/
def linked (p : SockProc) (stack : Bytes) (s : SocketEntry) (target : Bytes) : SocketEntry :=
  if (CStr.lit "socket:[").bytes <+: target ∧ s.inode = (strtoul (target.drop 8)).toUInt32 then
    s.foundIn p stack
  else s

theorem mapLink_eq (p : SockProc) (stack : Bytes) (sockets : List SocketEntry) (target : Bytes) :
    mapLink p stack sockets target = sockets.map fun s => linked p stack s target := by
  rw [mapLink]
  by_cases hsocket : (CStr.lit "socket:[").bytes <+: target
  · rw [if_pos hsocket]
    simp only [linked, hsocket, true_and]
  · rw [if_neg hsocket]
    simp only [linked, hsocket, false_and, if_false, List.map_id']

/-- Going through all of them with every step is going through the steps with each of them. -/
theorem foldl_map_each {α β : Type} (f : β → α → β) (as : List α) (bs : List β) :
    as.foldl (fun bs a => bs.map fun b => f b a) bs = bs.map fun b => as.foldl f b := by
  induction as generalizing bs with
  | nil => exact (List.map_id' bs).symm
  | cons a as ih =>
    rw [List.foldl_cons, ih, List.map_map]
    rfl

/-- The inode that a link gives. -/
theorem strtoul_target (inode : UInt32) :
    (strtoul ((FdLink.socket inode).target.drop 8)).toUInt32 = inode := by
  have hbracket : Stops Json.isDigit [0x5d] := stops_cons (by decide) []
  have hread := strtoul_digits (natToken inode.toNat) hbracket
  have hdrop : (FdLink.socket inode).target.drop 8 = (natToken inode.toNat).bytes ++ [0x5d] := rfl
  have hvalue : Json.natValue (natToken inode.toNat).bytes = inode.toNat :=
    Json.natValue_decNat inode.toNat
  rw [hdrop, hread, hvalue, ulong_toUInt32 inode.toNat_lt, UInt32.ofNat_toNat]

/-- A link makes a socket the process's, if it is the socket's. -/
theorem linked_target (p : Holder) (stack : Bytes) (s : SocketEntry) (l : FdLink) :
    linked p.proc stack s l.target =
      if l.opens s.inode then s.foundIn p.proc stack else s := by
  rw [linked]
  cases l with
  | socket inode =>
    have hmark : (CStr.lit "socket:[").bytes <+: (FdLink.socket inode).target :=
      List.prefix_append _ _
    rw [strtoul_target, FdLink.opens]
    by_cases hinode : inode = s.inode
    · rw [if_pos ⟨hmark, hinode.symm⟩, if_pos (decide_eq_true hinode)]
    · rw [if_neg fun h => hinode h.2.symm, if_neg (by simpa using hinode)]
  | other target notSocket =>
    rw [if_neg fun h => notSocket h.1]
    rfl

theorem inode_foundIn (s : SocketEntry) (p : Holder) (stack : Bytes) :
    (s.foundIn p.proc stack).inode = s.inode := by
  rw [foundIn_holder]

theorem foundIn_twice (s : SocketEntry) (p : Holder) (stack : Bytes) :
    (s.foundIn p.proc stack).foundIn p.proc stack = s.foundIn p.proc stack := by
  simp only [foundIn_holder]
  cases p.name with
  | none => rfl
  | some n => rfl

/-- All links of a process. -/
theorem foldl_linked (p : Holder) (stack : Bytes) (links : List FdLink) (s : SocketEntry) :
    (links.map FdLink.target).foldl (linked p.proc stack) s =
      if links.any (FdLink.opens s.inode) then s.foundIn p.proc stack else s := by
  induction links generalizing s with
  | nil => rfl
  | cons l links ih =>
    rw [List.map_cons, List.foldl_cons, linked_target, List.any_cons]
    by_cases hl : l.opens s.inode = true
    · rw [if_pos hl, ih, inode_foundIn, foundIn_twice, hl, Bool.true_or, if_pos rfl, ite_self]
    · rw [if_neg hl, ih, Bool.eq_false_iff.2 hl, Bool.false_or]

/-- What a process makes of a socket. -/
def Holder.claim (p : Holder) (s : SocketEntry) : SocketEntry :=
  if p.holds s.inode then
    { s with pid := p.pid, cmd := (p.name.map ProcName.text).getD s.cmd }
  else s

theorem mapInodesToPids_holders {files : SockFiles} {holders : List Holder}
    (h : files.procs = some (holders.map Holder.proc)) (priv : SockstatPriv) :
    (mapInodesToPids files priv).sockets =
      priv.sockets.map fun s => holders.foldl (fun s p => p.claim s) s := by
  have hproc (p : Holder) (sockets : List SocketEntry) :
      (p.proc.fds.getD []).foldl (mapLink p.proc files.stack) sockets = sockets.map p.claim := by
    have hlinks : p.proc.fds.getD [] = (p.links.getD []).map FdLink.target := by
      rw [Holder.proc]
      cases p.links with
      | none => rfl
      | some links => rfl
    have hmap : mapLink p.proc files.stack =
        fun sockets target => sockets.map fun s => linked p.proc files.stack s target := by
      funext sockets target
      exact mapLink_eq p.proc files.stack sockets target
    rw [hmap, foldl_map_each, hlinks]
    refine List.map_congr_left fun s _ => ?_
    rw [foldl_linked, foundIn_holder]
    rfl
  rw [mapInodesToPids, h, Option.getD_some, List.foldl_map]
  simp only [hproc]
  exact foldl_map_each (fun s (p : Holder) => p.claim s) holders priv.sockets

/-! ## Owners -/

/-- The last process that has the socket open. -/
def owner (holders : List Holder) (inode : UInt32) : Int32 :=
  Assign.last (fun p => if p.holds inode then some p.pid else none) holders 0

/-- The last name of such a process that could be read. -/
def ownerName (holders : List Holder) (inode : UInt32) : CStr :=
  Assign.last (fun p => if p.holds inode then p.name.map ProcName.text else none) holders (.lit "")

theorem foldl_claim (holders : List Holder) (s : SocketEntry) :
    holders.foldl (fun s p => p.claim s) s = { s with
      pid := Assign.last (fun p => if p.holds s.inode then some p.pid else none) holders s.pid
      cmd := Assign.last (fun p => if p.holds s.inode then p.name.map ProcName.text else none)
        holders s.cmd } := by
  induction holders generalizing s with
  | nil => rfl
  | cons p holders ih =>
    rw [List.foldl_cons, Assign.last_cons, Assign.last_cons, ih, Holder.claim]
    by_cases hholds : p.holds s.inode = true
    · simp only [if_pos hholds, Option.getD_some]
    · simp only [if_neg hholds, Option.getD_none]

/-! ## The table -/

/-- What the line gives. -/
def tcpEntry (line : Bytes) : Option SocketEntry := (tcpLine sockstatInit line).sockets.head?

theorem tcpLine_entry (priv : SockstatPriv) (line : Bytes) :
    (tcpLine priv line).sockets = priv.sockets ++ (tcpEntry line).toList := by
  rw [tcpEntry, tcpLine, tcpLine]
  split
  · rfl
  · exact (List.append_nil priv.sockets).symm

/-- The loop takes the sockets there is room for. -/
theorem tcpLoop_entries (lines : List Bytes) (priv : SockstatPriv) :
    (tcpLoop lines priv).sockets = priv.sockets ++
      (lines.filterMap tcpEntry).take (maxSockets - priv.sockets.length) :=
  entries_of_loop SockstatPriv.sockets (fun _ => rfl) (fun _ _ _ => rfl) tcpLine_entry lines priv

/-- What `sscanf` finds in a line, with its newline or without. -/
theorem sscanf_line (row : TcpRow) (newline : Bool) :
    sscanf tcpFormat (cstr (row.line ++ (if newline then [0x0a] else []) ++ [0])).bytes =
      row.scanned := by
  have hline : row.line ++ (if newline then [0x0a] else []) =
      row.fields (0x20 :: (row.rest ++ if newline then [0x0a] else [])) := by
    simp only [TcpRow.line, TcpRow.fields, TcpRow.numbers, List.append_assoc, List.cons_append]
  have hfree : 0 ∉ row.line ++ (if newline then [0x0a] else []) := by
    rw [List.mem_append, not_or]
    exact ⟨row.line_nulFree, by split <;> decide⟩
  have hcstr : (cstr (row.line ++ (if newline then [0x0a] else []) ++ [0])).bytes =
      row.line ++ if newline then [0x0a] else [] :=
    congrArg CStr.bytes (CStr.cstr_terminated ⟨_, hfree⟩)
  have hstops : Stops Json.isDigit (0x20 :: (row.rest ++ if newline then [0x0a] else [])) := by
    intro c hc
    rw [← Option.some.inj hc]
    rfl
  rw [hcstr, hline, sscanf_row row hstops]

/-- A socket as the kernel lists it. -/
structure ListedSocket where
  row : TcpRow
  localEnd : Endpoint
  remEnd : Endpoint
  localAddr_eq : row.localAddr.bytes = localEnd.hex
  remAddr_eq : row.remAddr.bytes = remEnd.hex
  txQueue_lt : hexValue row.txQueue.bytes < 2 ^ 32
  rxQueue_lt : hexValue row.rxQueue.bytes < 2 ^ 32
  inode_lt : Json.natValue row.inode.bytes < 2 ^ 32

namespace ListedSocket

def inode (k : ListedSocket) : UInt32 := .ofNat (Json.natValue k.row.inode.bytes)

/-- What should be stored of it, when these are the processes. -/
def entry (holders : List Holder) (k : ListedSocket) : SocketEntry where
  localAddr := k.localEnd.shown
  remAddr := k.remEnd.shown
  state := k.row.stateValue
  txQueue := .ofNat (hexValue k.row.txQueue.bytes)
  rxQueue := .ofNat (hexValue k.row.rxQueue.bytes)
  inode := k.inode
  pid := owner holders k.inode
  cmd := ownerName holders k.inode

end ListedSocket

/-- **A line of the table** gives its socket, without an owner. -/
theorem tcpEntry_row (k : ListedSocket) (newline : Bool) :
    tcpEntry (k.row.line ++ if newline then [0x0a] else []) = some (k.entry []) := by
  rw [tcpEntry, tcpLine, sscanf_line, TcpRow.scanned]
  simp only [k.localAddr_eq, k.remAddr_eq, (parseAddress_hex k.localEnd).1,
    (parseAddress_hex k.remEnd).1, ulong_toUInt32 k.row.state_lt, ulong_toUInt32 k.txQueue_lt,
    ulong_toUInt32 k.rxQueue_lt, ulong_toUInt32 k.inode_lt]
  rfl

theorem parseTcpDetailed_sockets (t : TcpTable) {sockets : List ListedSocket}
    (hrows : t.rows = sockets.map ListedSocket.row) {priv : SockstatPriv}
    (hempty : priv.sockets = []) :
    (parseTcpDetailed (some t.text) priv).sockets =
      (sockets.take maxSockets).map (ListedSocket.entry []) := by
  have hheader := t.header_le
  obtain ⟨newline, hpieces⟩ := fgetsAll_unlines t.ended t.header_noNewline
    (show t.header.length + 1 < 512 by omega) t.header_ne_nil (t.rows.map TcpRow.line)
  have hlen : ∀ k ∈ sockets, k.row.line.length + 1 < 512 := by
    intro k hk
    have hle := t.rows_le k.row (by rw [hrows]; exact List.mem_map_of_mem hk)
    omega
  have hentries : (fgetsAll 512 (unlines t.ended (t.rows.map TcpRow.line))).filterMap tcpEntry =
      sockets.filterMap fun k => some (k.entry []) := by
    rw [hrows, List.map_map]
    exact filterMap_fgetsAll (fun k _ => k.row.line_noNewline) (fun k _ => k.row.line_ne_nil) hlen
      (fun k _ newline => tcpEntry_row k newline) t.ended
  rw [parseTcpDetailed, Option.getD_some, TcpTable.text, hpieces]
  simp only [tcpLoop_entries, hempty, hentries, List.nil_append, List.length_nil, Nat.sub_zero,
    List.filterMap_eq_map', List.map_take]

/-- **The sockets after a collection** are the first 1024 of the table, in its order, each with its
addresses decoded and with its owner. -/
theorem sockstat_sockets (files : SockFiles) (t : TcpTable) (sockets : List ListedSocket)
    (holders : List Holder) (priv : SockstatPriv) (htcp : files.tcp = some t.text)
    (hrows : t.rows = sockets.map ListedSocket.row)
    (hprocs : files.procs = some (holders.map Holder.proc)) :
    (sockstatCollect files priv).sockets =
      (sockets.take 1024).map (ListedSocket.entry holders) := by
  have hparse : (parseTcpDetailed (some t.text) {
      summary := emptySummary, previousSummary := priv.summary, sockets := [],
      hasPrevious := true }).sockets = (sockets.take maxSockets).map (ListedSocket.entry []) :=
    parseTcpDetailed_sockets t hrows rfl
  rw [sockstatCollect, htcp]
  simp only [mapInodesToPids_holders hprocs, hparse, List.map_map]
  refine List.map_congr_left fun k _ => ?_
  exact foldl_claim holders (k.entry [])

/-- A server on the loopback interface. -/
def loopbackServer : ListedSocket where
  row := listening
  localEnd := ⟨127, 0, 0, 1, 8080⟩
  remEnd := ⟨0, 0, 0, 0, 0⟩
  localAddr_eq := by decide
  remAddr_eq := by decide
  txQueue_lt := by decide
  rxQueue_lt := by decide
  inode_lt := by decide

/-- A process that has the server's socket open. -/
def serverProcess (pid : Int32) (name : Option ProcName) : Holder where
  pid := pid
  links := some [.other (CStr.lit "/dev/null").bytes (by decide), .socket 31337]
  name := name
  comm := name.map fun n => [.data (n.text.bytes ++ [0x0a])]
  comm_reads := by
    cases name with
    | none => exact .inl ⟨rfl, rfl⟩
    | some n => exact .inr ⟨n, _, rfl, rfl, .single (by simp)⟩

def serverProcesses : List Holder := [
  serverProcess 40 (some ⟨.lit "server", by decide, by decide⟩), serverProcess 41 none]

theorem sockstat_sockets_server :
    let files : SockFiles := { listenerFiles 1 with
      procs := some (serverProcesses.map Holder.proc) }
    (sockstatCollect files sockstatInit).sockets =
      ([loopbackServer].take 1024).map (ListedSocket.entry serverProcesses) :=
  sockstat_sockets { listenerFiles 1 with procs := some (serverProcesses.map Holder.proc) }
    (listeners 1) [loopbackServer] serverProcesses sockstatInit rfl rfl rfl

end Sockstat

end Qmem
