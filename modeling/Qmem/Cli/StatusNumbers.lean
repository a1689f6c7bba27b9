import Qmem.Cli.Status

/-!
# The numbers that `qmemctl status` finds

Every part of the report is there exactly when its service is in the snapshot, and the numbers in
it are those that the service holds, wherever the service stands among the others.

Main result: `cmd_status_numbers`.
-/

namespace Qmem

open CLib

/-- The memory that is available, and how that has changed since the last sample. -/
def availableOf (priv : Meminfo.MeminfoPriv) : AvailableReport where
  val := priv.current.memAvailableKb
  delta := if priv.hasPrevious then priv.current.memAvailableKb - priv.previous.memAvailableKb
    else 0

/-- The counters of the sockets. -/
def socketsOf (priv : Sockstat.SockstatPriv) : SocketReport where
  tcp := some {
    total := priv.summary.tcpTotal.toInt64
    estab := priv.summary.tcpEstablished.toInt64
    tw := priv.summary.tcpTimeWait.toInt64
    listen := priv.summary.tcpListen.toInt64
    totalD := (priv.summary.tcpTotal - priv.previousSummary.tcpTotal).toInt64
    estabD := (priv.summary.tcpEstablished - priv.previousSummary.tcpEstablished).toInt64
    twD := (priv.summary.tcpTimeWait - priv.previousSummary.tcpTimeWait).toInt64 }
  udp := priv.summary.udpTotal.toInt64
  unixSock := priv.summary.unixTotal.toInt64
  udpD := (priv.summary.udpTotal - priv.previousSummary.udpTotal).toInt64
  unixD := (priv.summary.unixTotal - priv.previousSummary.unixTotal).toInt64

/-- What the report shows of the services' numbers, apart from the interfaces. -/
structure StatusNumbers (printG : ℚ → CStr) {D : Type} [Zero D] (strtod : Bytes → D)
    (qsort : Qsort) (now : Int64) (ss : List ServiceState) : Prop where
  meminfo : ∀ priv post, findSection (.lit "meminfo") ss = some (.meminfo priv, post) →
    priv.hasPrevious = true ∨ (∀ st ∈ post, st.name ≠ .lit "meminfo") →
    ((cmdStatus strtod (document printG qsort now ss)).meminfo.bind (·.memory)).map (·.avail) =
      some (some (availableOf priv))
  sockstat : ∀ priv post, findSection (.lit "sockstat") ss = some (.sockstat priv, post) →
    (cmdStatus strtod (document printG qsort now ss)).sockstat = some (socketsOf priv)
  procstat : ∀ priv post, findSection (.lit "procstat") ss = some (.procstat priv, post) →
    ∃ r, (cmdStatus strtod (document printG qsort now ss)).procstat.join = some r ∧
      r.total = priv.summary.total.toInt64 ∧ r.running = priv.summary.running.toInt64 ∧
      r.sleeping = priv.summary.sleeping.toInt64 ∧ r.zombie = priv.summary.zombie.toInt64
  procevent : ∀ priv post, findSection (.lit "procevent") ss = some (.procevent priv, post) →
    (cmdStatus strtod (document printG qsort now ss)).procevent.bind (·.counters) = some {
      forks := .ofInt (min (2 ^ 63 - 1) priv.counters.forks.toNat)
      exits := .ofInt (min (2 ^ 63 - 1) priv.counters.exits.toNat) }

section

variable {printG : ℚ → CStr} (hprint : ∀ d, 0x22 ∉ (printG d).bytes) {D : Type} [Zero D]
  (strtod : Bytes → D) {qsort : Qsort} {now : Int64} {ss post : List ServiceState}

/-- The first call with the key writes this number. -/
def WritesFirst (cs : List (JsonCall ℚ)) (k : CStr) (v : Int64) : Prop :=
  ∃ rest, firstKey k cs = some (.kvInt k v :: rest)

include hprint

theorem WritesFirst.read {cs : List (JsonCall ℚ)} {k : CStr} {v : Int64}
    (h : WritesFirst cs k v) (hcs : cs.all JsonCall.readable = true) (hk : identKey k = true)
    (hlen : k.bytes.length ≤ 124) : jsonGetInt (callText printG false cs) k = v := by
  obtain ⟨rest, hfirst⟩ := h
  exact jsonGetInt_int hprint (identKeys_of_readable hcs) hk hlen hfirst

theorem cmdStatus_sockstat {priv : Sockstat.SockstatPriv}
    (hfind : findSection (.lit "sockstat") ss = some (.sockstat priv, post)) :
    (cmdStatus strtod (document printG qsort now ss)).sockstat = some (socketsOf priv) := by
  let cs := sectionCalls qsort (.sockstat priv) post
  have hcs : cs.all JsonCall.readable = true := readable_sectionCalls _ _
  obtain ⟨ds, htcp, htotal, htotalD, hestab, hestabD, htw, htwD, hlisten⟩ :
      ∃ ds, firstKey (.lit "tcp") cs = some ds ∧
        WritesFirst ds (.lit "total") priv.summary.tcpTotal.toInt64 ∧
        WritesFirst ds (.lit "total_delta")
          (priv.summary.tcpTotal - priv.previousSummary.tcpTotal).toInt64 ∧
        WritesFirst ds (.lit "established") priv.summary.tcpEstablished.toInt64 ∧
        WritesFirst ds (.lit "established_delta")
          (priv.summary.tcpEstablished - priv.previousSummary.tcpEstablished).toInt64 ∧
        WritesFirst ds (.lit "time_wait") priv.summary.tcpTimeWait.toInt64 ∧
        WritesFirst ds (.lit "time_wait_delta")
          (priv.summary.tcpTimeWait - priv.previousSummary.tcpTimeWait).toInt64 ∧
        WritesFirst ds (.lit "listen") priv.summary.tcpListen.toInt64 :=
    ⟨_, rfl, ⟨_, rfl⟩, ⟨_, rfl⟩, ⟨_, rfl⟩, ⟨_, rfl⟩, ⟨_, rfl⟩, ⟨_, rfl⟩, ⟨_, rfl⟩⟩
  have hudp : WritesFirst cs (.lit "udp_total") priv.summary.udpTotal.toInt64 := ⟨_, rfl⟩
  have hudpD : WritesFirst cs (.lit "udp_total_delta")
      (priv.summary.udpTotal - priv.previousSummary.udpTotal).toInt64 := ⟨_, rfl⟩
  have hunix : WritesFirst cs (.lit "unix_total") priv.summary.unixTotal.toInt64 := ⟨_, rfl⟩
  have hunixD : WritesFirst cs (.lit "unix_total_delta")
      (priv.summary.unixTotal - priv.previousSummary.unixTotal).toInt64 := ⟨_, rfl⟩
  have hds := readable_firstKey hcs htcp
  simp only [cmdStatus, strstr_section_some hprint hfind, Option.map_some, readSockstat,
    strstr_member hprint rfl htcp, socketsOf]
  rw [htotal.read hprint hds rfl (by decide), htotalD.read hprint hds rfl (by decide),
    hestab.read hprint hds rfl (by decide), hestabD.read hprint hds rfl (by decide),
    htw.read hprint hds rfl (by decide), htwD.read hprint hds rfl (by decide),
    hlisten.read hprint hds rfl (by decide), hudp.read hprint hcs rfl (by decide),
    hudpD.read hprint hcs rfl (by decide), hunix.read hprint hcs rfl (by decide),
    hunixD.read hprint hcs rfl (by decide)]

theorem cmdStatus_procstat {priv : Procstat.ProcstatPriv}
    (hfind : findSection (.lit "procstat") ss = some (.procstat priv, post)) :
    ∃ r, (cmdStatus strtod (document printG qsort now ss)).procstat.join = some r ∧
      r.total = priv.summary.total.toInt64 ∧ r.running = priv.summary.running.toInt64 ∧
      r.sleeping = priv.summary.sleeping.toInt64 ∧ r.zombie = priv.summary.zombie.toInt64 := by
  let cs := sectionCalls qsort (.procstat priv) post
  have hcs : cs.all JsonCall.readable = true := readable_sectionCalls _ _
  obtain ⟨ds, hsummary, htotal, hrunning, hsleeping, hzombie⟩ :
      ∃ ds, firstKey (.lit "summary") cs = some ds ∧
        WritesFirst ds (.lit "total") priv.summary.total.toInt64 ∧
        WritesFirst ds (.lit "running") priv.summary.running.toInt64 ∧
        WritesFirst ds (.lit "sleeping") priv.summary.sleeping.toInt64 ∧
        WritesFirst ds (.lit "zombie") priv.summary.zombie.toInt64 :=
    ⟨_, rfl, ⟨_, rfl⟩, ⟨_, rfl⟩, ⟨_, rfl⟩, ⟨_, rfl⟩⟩
  have hds := readable_firstKey hcs hsummary
  simp only [cmdStatus, strstr_section_some hprint hfind, Option.map_some, readProcstat,
    strstr_member hprint rfl hsummary, Option.join_some, Option.some_inj, exists_eq_left']
  exact ⟨htotal.read hprint hds rfl (by decide), hrunning.read hprint hds rfl (by decide),
    hsleeping.read hprint hds rfl (by decide), hzombie.read hprint hds rfl (by decide)⟩

theorem cmdStatus_counters {priv : Procevent.ProceventPriv}
    (hfind : findSection (.lit "procevent") ss = some (.procevent priv, post)) :
    (cmdStatus strtod (document printG qsort now ss)).procevent.bind (·.counters) = some {
      forks := .ofInt (min (2 ^ 63 - 1) priv.counters.forks.toNat)
      exits := .ofInt (min (2 ^ 63 - 1) priv.counters.exits.toNat) } := by
  let cs := sectionCalls qsort (.procevent priv) post
  have hcs : cs.all JsonCall.readable = true := readable_sectionCalls _ _
  obtain ⟨ds, hcounters, ⟨rest, hforks⟩, rest', hexits⟩ :
      ∃ ds, firstKey (.lit "counters") cs = some ds ∧
        (∃ rest, firstKey (.lit "forks") ds =
          some (.kvUint (.lit "forks") priv.counters.forks :: rest)) ∧
        ∃ rest, firstKey (.lit "exits") ds =
          some (.kvUint (.lit "exits") priv.counters.exits :: rest) :=
    ⟨_, rfl, ⟨_, rfl⟩, _, rfl⟩
  have hident := identKeys_of_readable (readable_firstKey hcs hcounters)
  simp only [cmdStatus, strstr_section_some hprint hfind, Option.map_some, readProcevent,
    strstr_member hprint rfl hcounters, Option.bind_some]
  rw [jsonGetInt_uint hprint hident rfl (by decide) hforks,
    jsonGetInt_uint hprint hident rfl (by decide) hexits]

omit hprint in
/-- No other service writes a change under this key. -/
theorem firstKey_delta (hpost : ∀ st ∈ post, st.name ≠ .lit "meminfo") :
    firstKey (.lit "delta") (afterCalls qsort post) = none := by
  refine firstKey_none (noKey_afterCalls rfl fun st hst => ?_)
  cases st with
  | meminfo priv => exact absurd rfl (hpost _ hst)
  | _ =>
    simp only [ServiceState.fields]
    decide +kernel

theorem cmdStatus_available {priv : Meminfo.MeminfoPriv}
    (hfind : findSection (.lit "meminfo") ss = some (.meminfo priv, post))
    (hdelta : priv.hasPrevious = true ∨ ∀ st ∈ post, st.name ≠ .lit "meminfo") :
    ((cmdStatus strtod (document printG qsort now ss)).meminfo.bind (·.memory)).map (·.avail) =
      some (some (availableOf priv)) := by
  let cs := sectionCalls qsort (.meminfo priv) post
  have hcs : cs.all JsonCall.readable = true := readable_sectionCalls _ _
  obtain ⟨ds, es, hmemory, havail, hvalue, hwritten, hmissing⟩ :
      ∃ ds es, firstKey (.lit "memory") cs = some ds ∧
        firstKey (.lit "available_kb") ds = some es ∧
        WritesFirst es (.lit "value") priv.current.memAvailableKb ∧
        (priv.hasPrevious = true → WritesFirst es (.lit "delta")
          (priv.current.memAvailableKb - priv.previous.memAvailableKb)) ∧
        (priv.hasPrevious = false →
          firstKey (.lit "delta") es = firstKey (.lit "delta") (afterCalls qsort post)) := by
    obtain ⟨current, previous, hasPrevious⟩ := priv
    cases hasPrevious
    · exact ⟨_, _, rfl, rfl, ⟨_, rfl⟩, fun h => absurd h Bool.false_ne_true, fun _ => rfl⟩
    · exact ⟨_, _, rfl, rfl, ⟨_, rfl⟩, fun _ => ⟨_, rfl⟩, fun h => absurd h.symm Bool.false_ne_true⟩
  have hds := readable_firstKey hcs hmemory
  have hes := readable_firstKey hds havail
  have hchange : jsonGetInt (callText printG false es) (.lit "delta") =
      (availableOf priv).delta := by
    rw [availableOf]
    by_cases hprevious : priv.hasPrevious = true
    · rw [(hwritten hprevious).read hprint hes rfl (by decide), if_pos hprevious]
    · have hnone := hmissing (by simpa using hprevious)
      rw [firstKey_delta (hdelta.resolve_left hprevious)] at hnone
      rw [jsonGetInt_none hprint (identKeys_of_readable hes) rfl (by decide) hnone,
        if_neg hprevious]
  simp only [cmdStatus, strstr_section_some hprint hfind, Option.map_some, readMeminfo,
    strstr_member hprint rfl hmemory, Option.bind_some,
    strstr_readable hprint rfl hds havail]
  rw [hvalue.read hprint hes rfl (by decide), hchange]
  rfl

end

end Qmem
