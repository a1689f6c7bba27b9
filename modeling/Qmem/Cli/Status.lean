import Qmem.Cli.Document

/-!
# `qmemctl status` (`cli/commands.c`)

The command looks for numbers under keys of its own. Where the service writes another key, it
finds nothing, or something else that stands further on, and shows what comes of that.
-/

namespace Qmem

open CLib Meminfo Netstat Procstat

/-! ## The command -/

section

variable {D : Type} [Zero D] (strtod : Bytes → D)

/-- `json_get_double`. -/
def jsonGetDouble (json : Bytes) (key : CStr) : D :=
  match jsonFindKey json key with
  | none => 0
  | some pos =>
    match strchr pos 0x3a with
    | none => 0
    | some pos => strtod (pos.tail.dropWhile isspace)

structure AvailableReport where
  val : Int64
  delta : Int64

structure MemoryReport where
  total : Int64
  avail : Option AvailableReport

structure MeminfoReport (D : Type) where
  usage : D
  memory : Option MemoryReport

def readMeminfo (meminfo : Bytes) : MeminfoReport D where
  usage := jsonGetDouble strtod meminfo (.lit "usage_percent")
  memory := (strstr meminfo (keyPattern (.lit "memory"))).map fun memory => {
    total := jsonGetInt memory (.lit "\"value\"")
    avail := (strstr memory (keyPattern (.lit "available_kb"))).map fun avail => {
      val := jsonGetInt avail (.lit "value")
      delta := jsonGetInt avail (.lit "delta") } }

structure CpuReport (D : Type) where
  user : D
  system : D
  idle : D
  iowait : D

def readCpuload (cpuload : Bytes) : Option (CpuReport D) :=
  (strstr cpuload (keyPattern (.lit "system"))).map fun sys => {
    user := jsonGetDouble strtod sys (.lit "user_percent")
    system := jsonGetDouble strtod sys (.lit "system_percent")
    idle := jsonGetDouble strtod sys (.lit "idle_percent")
    iowait := jsonGetDouble strtod sys (.lit "iowait_percent") }

/-- A row under "Network". -/
structure InterfaceRow where
  name : Bytes
  rx : Int64
  tx : Int64
  rxDelta : Int64
  txDelta : Int64

def InterfaceRow.read (pos : Bytes) : InterfaceRow where
  name := extractString pos (.lit "name") 31 []
  rx := jsonGetInt pos (.lit "rx_bytes")
  tx := jsonGetInt pos (.lit "tx_bytes")
  rxDelta := jsonGetInt pos (.lit "rx_bytes_delta")
  txDelta := jsonGetInt pos (.lit "tx_bytes_delta")

def readNetstat (netstat : Bytes) : Option (List InterfaceRow) :=
  (strstr netstat (keyPattern (.lit "interfaces"))).map fun ifaces =>
    arrayRows ifaces (.lit "name") InterfaceRow.read

structure TcpReport where
  total : Int64
  estab : Int64
  tw : Int64
  listen : Int64
  totalD : Int64
  estabD : Int64
  twD : Int64

structure SocketReport where
  tcp : Option TcpReport
  udp : Int64
  unixSock : Int64
  udpD : Int64
  unixD : Int64

def readSockstat (sockstat : Bytes) : SocketReport where
  tcp := (strstr sockstat (keyPattern (.lit "tcp"))).map fun tcp => {
    total := jsonGetInt tcp (.lit "total")
    estab := jsonGetInt tcp (.lit "established")
    tw := jsonGetInt tcp (.lit "time_wait")
    listen := jsonGetInt tcp (.lit "listen")
    totalD := jsonGetInt tcp (.lit "total_delta")
    estabD := jsonGetInt tcp (.lit "established_delta")
    twD := jsonGetInt tcp (.lit "time_wait_delta") }
  udp := jsonGetInt sockstat (.lit "udp_total")
  unixSock := jsonGetInt sockstat (.lit "unix_total")
  udpD := jsonGetInt sockstat (.lit "udp_total_delta")
  unixD := jsonGetInt sockstat (.lit "unix_total_delta")

structure ProcessReport where
  total : Int64
  running : Int64
  sleeping : Int64
  blocked : Int64
  zombie : Int64

def readProcstat (procstat : Bytes) : Option ProcessReport :=
  (strstr procstat (keyPattern (.lit "summary"))).map fun sum => {
    total := jsonGetInt sum (.lit "total")
    running := jsonGetInt sum (.lit "running")
    sleeping := jsonGetInt sum (.lit "sleeping")
    blocked := jsonGetInt sum (.lit "blocked")
    zombie := jsonGetInt sum (.lit "zombie") }

structure CountersReport where
  forks : Int64
  exits : Int64

/-- A row under "Recent Events". -/
structure EventRow where
  pid : Int64
  cmd : Bytes
  type : Bytes

def EventRow.read (pos : Bytes) : EventRow where
  pid := jsonGetInt pos (.lit "pid")
  cmd := extractString pos (.lit "cmd") 63 (CStr.lit "unknown").bytes
  type := extractString pos (.lit "type") 15 (CStr.lit "unknown").bytes

structure EventReport where
  counters : Option CountersReport
  events : Option (List EventRow)

def readProcevent (procevent : Bytes) : EventReport where
  counters := (strstr procevent (keyPattern (.lit "counters"))).map fun counters => {
    forks := jsonGetInt counters (.lit "forks")
    exits := jsonGetInt counters (.lit "exits") }
  events := (strstr procevent (keyPattern (.lit "recent_events"))).map fun events =>
    (arrayRows events (.lit "pid") EventRow.read).take 5

/-- What `cmd_status` prints: a part for each section it finds. -/
structure StatusReport (D : Type) where
  meminfo : Option (MeminfoReport D)
  cpuload : Option (Option (CpuReport D))
  netstat : Option (Option (List InterfaceRow))
  sockstat : Option SocketReport
  procstat : Option (Option ProcessReport)
  procevent : Option EventReport

/-- `cmd_status` without a target, for the response of the daemon. -/
def cmdStatus (response : Bytes) : StatusReport D where
  meminfo := (strstr response (keyPattern (.lit "meminfo"))).map (readMeminfo strtod)
  cpuload := (strstr response (keyPattern (.lit "cpuload"))).map (readCpuload strtod)
  netstat := (strstr response (keyPattern (.lit "netstat"))).map readNetstat
  sockstat := (strstr response (keyPattern (.lit "sockstat"))).map readSockstat
  procstat := (strstr response (keyPattern (.lit "procstat"))).map readProcstat
  procevent := (strstr response (keyPattern (.lit "procevent"))).map readProcevent

end

/-! ## The numbers it shows -/

/-- The row of an interface when `rest` follows it. -/
def InterfaceRow.seen (iface : NetstatIface) (rest : List (JsonCall ℚ)) : InterfaceRow where
  name := (shown iface.name).take 31
  rx := firstInt (.lit "rx_bytes") rest
  tx := firstInt (.lit "tx_bytes") rest
  rxDelta := firstInt (.lit "rx_bytes_delta") rest
  txDelta := firstInt (.lit "tx_bytes_delta") rest

/-- The row of an event. -/
def EventRow.of (e : Procevent.ProcEvent) : EventRow where
  pid := e.pid.toInt64
  cmd := (shown e.cmd).take 63
  type := (shown (Procevent.typeStr e.type)).take 15

/-- The events under `recent_events`. -/
def eventsShown (priv : Procevent.ProceventPriv) : List Procevent.ProcEvent :=
  (List.range (min priv.eventCount 20)).map (Procevent.recentEvent priv)

/-- The row shows the counters of the interface. -/
structure InterfaceRow.Shows (row : InterfaceRow) (iface : NetstatIface) : Prop where
  rx : row.rx.toInt = iface.rxBytes.toNat
  tx : row.tx.toInt = iface.txBytes.toNat
  rxDelta : row.rxDelta = iface.rxBytesDelta
  txDelta : row.txDelta = iface.txBytesDelta

/-- Nothing has gone over the interface. -/
structure Idle (iface : NetstatIface) : Prop where
  rx : iface.rxBytes = 0
  tx : iface.txBytes = 0
  rxDelta : iface.rxBytesDelta = 0
  txDelta : iface.txBytesDelta = 0

section

variable {qsort : Qsort} {now : Int64} {ss post : List ServiceState}

/-- A key that no interface and no service has is not found behind an interface. -/
theorem noKey_ifaces {k : CStr} (hiface : ∀ iface, NoKey k (ifaceCalls iface))
    (hname : serviceNames.contains k = false)
    (hfields : ∀ st : ServiceState, st.fields.all (·.1 != k) = true) (ifaces : List NetstatIface) :
    NoKey k (ifaces.flatMap ifaceCalls ++ .arrayEnd :: .objectEnd :: afterCalls qsort post) := by
  have hclose : NoKey k [(.arrayEnd : JsonCall ℚ), .objectEnd] := by simp [NoKey, JsonCall.key?]
  have hend : NoKey k (.arrayEnd :: .objectEnd :: afterCalls qsort post) :=
    hclose.append (noKey_afterCalls hname fun st _ => hfields st)
  exact (NoKey.flatMap fun iface _ => hiface iface).append hend

theorem InterfaceRow.seen_shows_iff (iface : NetstatIface) (ifaces : List NetstatIface) :
    (InterfaceRow.seen iface (ifaces.flatMap ifaceCalls ++
      .arrayEnd :: .objectEnd :: afterCalls qsort post)).Shows iface ↔ Idle iface := by
  have hzero (k : CStr) (hname : serviceNames.contains k = false)
      (hiface : ∀ iface, NoKey k (ifaceCalls iface))
      (hfields : ∀ st : ServiceState, st.fields.all (·.1 != k) = true) :
      firstInt k (ifaces.flatMap ifaceCalls ++
        .arrayEnd :: .objectEnd :: afterCalls qsort post) = 0 :=
    firstInt_none (noKey_ifaces hiface hname hfields ifaces)
  have hrx := hzero (.lit "rx_bytes") rfl (fun _ => noKey_of_all rfl) (by rintro ⟨⟩ <;> rfl)
  have htx := hzero (.lit "tx_bytes") rfl (fun _ => noKey_of_all rfl) (by rintro ⟨⟩ <;> rfl)
  have hrxDelta := hzero (.lit "rx_bytes_delta") rfl (fun _ => noKey_of_all rfl)
    (by rintro ⟨⟩ <;> rfl)
  have htxDelta := hzero (.lit "tx_bytes_delta") rfl (fun _ => noKey_of_all rfl)
    (by rintro ⟨⟩ <;> rfl)
  have hbytes (v : UInt64) : (0 : Int64).toInt = v.toNat ↔ v = 0 := by
    rw [← UInt64.toNat_inj, Int64.toInt_zero]
    exact ⟨fun h => (Int.natCast_eq_zero.1 h.symm), fun h => by rw [h]; rfl⟩
  constructor
  · rintro ⟨h₁, h₂, h₃, h₄⟩
    simp only [InterfaceRow.seen, hrx, htx, hrxDelta, htxDelta, hbytes] at h₁ h₂ h₃ h₄
    exact ⟨h₁, h₂, h₃.symm, h₄.symm⟩
  · rintro ⟨h₁, h₂, h₃, h₄⟩
    constructor <;> simp only [InterfaceRow.seen, hrx, htx, hrxDelta, htxDelta, hbytes]
    · exact h₁
    · exact h₂
    · exact h₃.symm
    · exact h₄.symm

section

variable {printG : ℚ → CStr} (hprint : ∀ d, 0x22 ∉ (printG d).bytes)
  {D : Type} [Zero D] (strtod : Bytes → D)

include hprint

theorem InterfaceRow.reads : ReadsWith printG ifaceCalls InterfaceRow.read InterfaceRow.seen := by
  intro iface rest hrest
  have hall : (ifaceCalls iface ++ rest).all JsonCall.readable = true := by
    rw [List.all_append, hrest]
    rfl
  have hident := identKeys_of_readable hall
  rw [InterfaceRow.read, InterfaceRow.seen,
    extractString_value hprint hident (k := .lit "name") rfl (stringKey_of_readable hall rfl)
      (v := iface.name) rfl,
    jsonGetInt_eq hprint hident (k := .lit "rx_bytes") rfl (by decide)
      (intKey_of_readable hall rfl),
    jsonGetInt_eq hprint hident (k := .lit "tx_bytes") rfl (by decide)
      (intKey_of_readable hall rfl),
    jsonGetInt_eq hprint hident (k := .lit "rx_bytes_delta") rfl (by decide)
      (intKey_of_readable hall rfl),
    jsonGetInt_eq hprint hident (k := .lit "tx_bytes_delta") rfl (by decide)
      (intKey_of_readable hall rfl)]
  rfl

/-- The rows of a snapshot that has a netstat section: first those of its interfaces. -/
theorem cmdStatus_interfaces (qsort : Qsort) (now : Int64) {priv : NetstatPriv}
    (hfind : findSection (.lit "netstat") ss = some (.netstat priv, post)) :
    ∃ more, (cmdStatus strtod (document printG qsort now ss)).netstat.join =
      some (rowsWith ifaceCalls InterfaceRow.seen
        (.arrayEnd :: .objectEnd :: afterCalls qsort post) priv.current ++ more) := by
  have hafter : (JsonCall.objectEnd :: afterCalls qsort post).all JsonCall.readable = true := by
    rw [List.all_cons, readable_afterCalls]
    rfl
  have hifaces : firstKey (.lit "interfaces") (sectionCalls qsort (.netstat priv) post) =
      some (.key (.lit "interfaces") ::
        (arrayCalls priv.current ifaceCalls ++ .objectEnd :: afterCalls qsort post)) := by
    simp [sectionCalls, ServiceState.snapshot, netstatSnapshot, objectCalls]
    rfl
  refine ⟨(objectsWith (.lit "name") (.objectEnd :: afterCalls qsort post)).map fun cs =>
    InterfaceRow.read (callText printG false cs), ?_⟩
  rw [cmdStatus, strstr_section_some hprint hfind, Option.map_some, readNetstat,
    strstr_member hprint rfl hifaces, Option.map_some,
    arrayRows_with hprint rfl rfl (fun _ _ => rfl) (InterfaceRow.reads hprint) (fun _ => rfl)
      hafter]
  rfl

theorem EventRow.reads : Reads printG Procevent.eventCalls EventRow.read EventRow.of := by
  intro e rest hrest
  have hall : (Procevent.eventCalls e ++ rest).all JsonCall.readable = true := by
    rw [List.all_append, hrest]
    rfl
  have hident := identKeys_of_readable hall
  rw [EventRow.read, EventRow.of,
    jsonGetInt_int hprint hident (k := .lit "pid") rfl (by decide) (v := e.pid.toInt64) rfl,
    extractString_value hprint hident (k := .lit "cmd") rfl (stringKey_of_readable hall rfl)
      (v := e.cmd) rfl,
    extractString_value hprint hident (k := .lit "type") rfl (stringKey_of_readable hall rfl)
      (v := Procevent.typeStr e.type) rfl]

/-- The rows of a snapshot that has a procevent section: first those of its events. -/
theorem cmdStatus_events (qsort : Qsort) (now : Int64) {priv : Procevent.ProceventPriv}
    (hfind : findSection (.lit "procevent") ss = some (.procevent priv, post)) :
    ∃ more, (cmdStatus strtod (document printG qsort now ss)).procevent.bind (·.events) =
      some (((eventsShown priv).map EventRow.of ++ more).take 5) := by
  have hafter : (JsonCall.objectEnd :: afterCalls qsort post).all JsonCall.readable = true := by
    rw [List.all_cons, readable_afterCalls]
    rfl
  have hevents : firstKey (.lit "recent_events") (sectionCalls qsort (.procevent priv) post) =
      some (.key (.lit "recent_events") :: (arrayCalls (eventsShown priv) Procevent.eventCalls ++
        .objectEnd :: afterCalls qsort post)) := by
    simp [sectionCalls, ServiceState.snapshot, Procevent.proceventSnapshot, objectCalls]
    rfl
  refine ⟨(objectsWith (.lit "pid") (.objectEnd :: afterCalls qsort post)).map fun cs =>
    EventRow.read (callText printG false cs), ?_⟩
  rw [cmdStatus, strstr_section_some hprint hfind, Option.map_some, Option.bind_some,
    readProcevent, strstr_member hprint rfl hevents, Option.map_some,
    arrayRows_array hprint rfl rfl (fun _ _ => rfl) (EventRow.reads hprint) (fun _ => rfl) hafter]

/-- The total is looked for under a key with quotes of its own, which no text holds. -/
theorem cmdStatus_total (qsort : Qsort) (now : Int64) {priv : MeminfoPriv}
    (hfind : findSection (.lit "meminfo") ss = some (.meminfo priv, post)) :
    ((cmdStatus strtod (document printG qsort now ss)).meminfo.bind (·.memory)).map (·.total) =
      some 0 := by
  obtain ⟨ds, hmemory⟩ :
      ∃ ds, firstKey (.lit "memory") (sectionCalls qsort (.meminfo priv) post) = some ds :=
    ⟨_, rfl⟩
  have hident := identKeys_of_readable (readable_firstKey (readable_sectionCalls _ _) hmemory)
  simp only [cmdStatus, strstr_section_some hprint hfind, Option.map_some, readMeminfo,
    strstr_member hprint rfl hmemory, Option.bind_some]
  rw [jsonGetInt_quoted hprint hident rfl rfl]

/-- What is found under "blocked" is the list of the blocked processes. -/
theorem cmdStatus_blocked (qsort : Qsort) (now : Int64) {priv : ProcstatPriv}
    (hfind : findSection (.lit "procstat") ss = some (.procstat priv, post)) :
    (cmdStatus strtod (document printG qsort now ss)).procstat.join.map (·.blocked) = some 0 := by
  obtain ⟨ds, hsummary⟩ :
      ∃ ds, firstKey (.lit "summary") (sectionCalls qsort (.procstat priv) post) = some ds ∧
        ∃ rest,
          firstKey (.lit "blocked") ds = some (.key (.lit "blocked") :: .arrayStart :: rest) :=
    ⟨_, rfl, _, rfl⟩
  obtain ⟨hsummary, rest, hblocked⟩ := hsummary
  have hident := identKeys_of_readable (readable_firstKey (readable_sectionCalls _ _) hsummary)
  simp only [cmdStatus, strstr_section_some hprint hfind, Option.map_some, readProcstat,
    strstr_member hprint rfl hsummary, Option.join_some]
  rw [jsonGetInt_array hprint hident rfl (by decide) hblocked]

end

end

end Qmem
