import Qmem.Lib.Attempts
import Qmem.Services.CounterDeltas
import Qmem.Services.Netstat
import Qmem.Services.SlabinfoTop

/-!
# What the changes are measured from

meminfo, slabinfo and netstat put the current sample in place of the previous one before they read
their file. If that fails the current sample is still the last one that was read: the parsers write
nothing until they have the text, and netstat reads the clock after them. So the next success is
compared with the last.

Main result: `changes_since_last`.
-/

namespace Qmem

open CLib

namespace Meminfo

/-! ## meminfo -/

/-- What a collection has read, if it succeeds. -/
def MeminfoRead.sample (r : MeminfoRead) : Option MeminfoData := parseMeminfo r.file r.buf

/-- The service after these collections. -/
def meminfoCollects (reads : List MeminfoRead) : MeminfoPriv :=
  Run.state (fun priv r => (meminfoCollect r.file r.buf priv).1) meminfoInit reads

theorem meminfoCollects_snoc (reads : List MeminfoRead) (r : MeminfoRead) :
    meminfoCollects (reads ++ [r]) = (meminfoCollect r.file r.buf (meminfoCollects reads)).1 := by
  rw [meminfoCollects, Run.state_append]
  rfl

/-- Every counter of a snapshot shows the later sample, and its difference to the earlier one. -/
def DataCompared (old new : MeminfoData) (priv : MeminfoPriv) : Prop :=
  ∀ c ∈ meminfoCounters, ∃ delta : Int64,
    meminfoReport (meminfoSnapshot priv) c = some ⟨c.field new, some delta⟩ ∧
      delta.toInt = (c.field new).toInt - (c.field old).toInt

theorem meminfoCollects_current {reads : List MeminfoRead} {old : MeminfoData}
    (h : Attempts.last MeminfoRead.sample reads = some old) :
    (meminfoCollects reads).current = old := by
  refine Attempts.holds_last (fun (priv : MeminfoPriv) b => priv.current = b) ?_ ?_ h
  · intro priv r data hdata
    rw [MeminfoRead.sample] at hdata
    rw [meminfoCollect, hdata]
  · intro priv r data hnone hcurrent
    rw [MeminfoRead.sample] at hnone
    rw [meminfoCollect, hnone]
    exact hcurrent

theorem sample_nonneg {r : MeminfoRead} {data : MeminfoData} (h : r.sample = some data)
    {c : MeminfoCounter} (hc : c ∈ meminfoCounters) : 0 ≤ (c.field data).toInt := by
  rw [parseMeminfo_field h hc]
  exact value_nonneg r c

theorem meminfo_since_last {before : List MeminfoRead} {r : MeminfoRead} {old new : MeminfoData}
    (hold : Attempts.last MeminfoRead.sample before = some old) (hnew : r.sample = some new) :
    DataCompared old new (meminfoCollects (before ++ [r])) := by
  have hcurrent := meminfoCollects_current hold
  have hstate : meminfoCollects (before ++ [r]) = ⟨new, old, true⟩ := by
    rw [meminfoCollects_snoc, meminfoCollect, ← MeminfoRead.sample, hnew, hcurrent]
  obtain ⟨r', _, hr'⟩ := Attempts.exists_of_last hold
  intro c hc
  refine ⟨c.field new - c.field old, ?_, ?_⟩
  · rw [hstate]
    exact objectReading_snapshot new old hc
  · exact Deltas.toInt_sub_of_nonneg (sample_nonneg hnew hc) (sample_nonneg hr' hc)

end Meminfo

namespace Slabinfo

/-! ## slabinfo -/

/-- An entry for a cache, compared with the one of its name in the earlier sample. A cache that was
not there has not changed. -/
structure SlabCompared (old : List SlabCacheInfo) (cur : SlabCacheInfo) (e : SlabEntry) : Prop where
  name : e.name = cur.name
  sizeBytes : e.sizeBytes = cur.sizeBytes
  numObjs : e.numObjs = cur.numObjs
  deltaBytes : e.deltaBytes.toInt =
    ((findSlab old cur.name).map fun prev => cur.sizeBytes.toInt - prev.sizeBytes.toInt).getD 0
  deltaObjs : e.deltaObjs =
    ((findSlab old cur.name).map fun prev => cur.numObjs - prev.numObjs).getD 0

/-- All lists show caches of the later sample, compared with the earlier one. -/
def SlabsCompared (qsort : Qsort) (old new : List SlabCacheInfo) (priv : SlabinfoPriv) : Prop :=
  ∀ e, e ∈ priv.growers ∨ e ∈ priv.shrinkers ∨
      (∃ maxEntries, e ∈ slabinfoGetTopConsumers qsort priv maxEntries) →
    ∃ cur ∈ new, SlabCompared old cur e

/-- A change that is listed. -/
theorem slabChange_compared {old : List SlabCacheInfo} {cur : SlabCacheInfo} {e : SlabEntry}
    (hold : ∀ slab ∈ old, slab.Parsed) (hcur : cur.Parsed) (h : slabChange old cur = some e) :
    SlabCompared old cur e := by
  rw [slabChange, Option.bind_eq_some_iff] at h
  obtain ⟨prev, hfind, h⟩ := h
  rw [Option.ite_none_right_eq_some] at h
  have hprev := hold prev (List.mem_of_find?_eq_some hfind)
  rw [← Option.some.inj h.2]
  constructor
  · exact CStr.cut_eq_self hcur.name
  · rfl
  · rfl
  · rw [hfind]
    exact (toInt_sizes hprev hcur).1
  · rw [hfind]
    rfl

theorem consumer_compared {priv : SlabinfoPriv} {cur : SlabCacheInfo} {e : SlabEntry}
    (hprevious : priv.hasPrevious = true) (hold : ∀ slab ∈ priv.previous, slab.Parsed)
    (hcur : cur.Parsed) (h : consumer priv cur = some e) : SlabCompared priv.previous cur e := by
  rw [consumer] at h
  split at h
  · exact absurd h.symm (Option.some_ne_none e)
  · rw [← Option.some.inj h]
    refine ⟨CStr.cut_eq_self hcur.name, rfl, rfl, ?_, rfl⟩
    cases hfind : findSlab priv.previous cur.name with
    | none => rfl
    | some prev => exact (toInt_sizes (hold prev (List.mem_of_find?_eq_some hfind)) hcur).1

/-- What a success keeps for the lists that are made later. -/
theorem slabinfoCollect_samples (qsort : Qsort) {priv : SlabinfoPriv} {file : ProcFile}
    {buf : Bytes} {now : List SlabCacheInfo} (hnow : parseSlabinfo file buf = some now) :
    (slabinfoCollect qsort priv file buf).1.current = now ∧
      (slabinfoCollect qsort priv file buf).1.previous = priv.current ∧
      (slabinfoCollect qsort priv file buf).1.hasPrevious = true := by
  simp only [slabinfoCollect, hnow]
  split
  · exact ⟨rfl, rfl, trivial⟩
  · exact ⟨rfl, rfl, trivial⟩

theorem slabinfo_since_last (qsort : Qsort) {before : List (ProcFile × Bytes)}
    {r : ProcFile × Bytes} {old new : List SlabCacheInfo}
    (hold : Attempts.last (fun r => parseSlabinfo r.1 r.2) before = some old)
    (hnew : parseSlabinfo r.1 r.2 = some new) :
    SlabsCompared qsort old new (slabinfoRun qsort (before ++ [r])) := by
  obtain ⟨hcurrent, hprevious⟩ := slabinfoRun_last qsort hold
  obtain ⟨hgrowers, hshrinkers⟩ := slabinfoCollect_lists qsort hprevious hnew
  rw [hcurrent] at hgrowers hshrinkers
  have hnewParsed := parseSlabinfo_parsed hnew
  have holdParsed : ∀ slab ∈ old, slab.Parsed := by
    obtain ⟨r', _, hr'⟩ := Attempts.exists_of_last hold
    exact parseSlabinfo_parsed hr'
  have hchange {e : SlabEntry} (he : e ∈ new.filterMap (slabChange old)) :
      ∃ cur ∈ new, SlabCompared old cur e := by
    obtain ⟨cur, hcur, he⟩ := List.mem_filterMap.1 he
    exact ⟨cur, hcur, slabChange_compared holdParsed (hnewParsed cur hcur) he⟩
  have hrun : slabinfoRun qsort (before ++ [r]) =
      (slabinfoCollect qsort (slabinfoRun qsort before) r.1 r.2).1 := by
    rw [slabinfoRun, Run.state_append]
    rfl
  intro e he
  rw [hrun] at he
  rcases he with he | he | ⟨maxEntries, he⟩
  · rw [hgrowers] at he
    have he := List.mem_of_mem_filter (List.mem_of_mem_take he)
    exact hchange ((qsort.perm _ _).mem_iff.1 he)
  · rw [hshrinkers] at he
    have he := List.mem_of_mem_filter (List.mem_of_mem_take he)
    exact hchange ((qsort.perm _ _).mem_iff.1 ((qsort.perm _ _).mem_iff.1 he))
  · have he := (qsort.perm _ _).mem_iff.1 (List.mem_of_mem_take he)
    obtain ⟨cur, hcur, he⟩ := List.mem_filterMap.1 he
    obtain ⟨hnow, hbefore, hseen⟩ := slabinfoCollect_samples qsort hnew
    rw [hnow] at hcur
    rw [hcurrent] at hbefore
    have hcompared := consumer_compared hseen (by rwa [hbefore]) (hnewParsed cur hcur) he
    rw [hbefore] at hcompared
    exact ⟨cur, hcur, hcompared⟩

end Slabinfo

namespace Netstat

/-! ## netstat -/

/-- What one collection reads, what is in the array before, and the clock. -/
structure NetRead where
  file : ProcFile
  buf : Bytes
  now : Int64
  now_nonneg : 0 ≤ now.toInt

/-- The interfaces a collection has read, if it succeeds, and when. -/
def NetRead.sample (r : NetRead) : Option (List NetstatIface × Int64) :=
  (parseNetDev r.file r.buf).map fun ifaces => (ifaces, r.now)

/-- The service after these collections. -/
def netstatCollects (reads : List NetRead) : NetstatPriv :=
  Run.state (fun priv r => (netstatCollect priv r.file r.buf r.now).1) netstatInit reads

theorem netstatCollects_snoc (reads : List NetRead) (r : NetRead) :
    netstatCollects (reads ++ [r]) =
      (netstatCollect (netstatCollects reads) r.file r.buf r.now).1 := by
  rw [netstatCollects, Run.state_append]
  rfl

/-- An interface as it is shown: the counters are the later ones, and the changes, if it was there
in the earlier sample, are measured from that. -/
structure IfaceCompared (old : List NetstatIface) (seconds : Int) (cur shown : NetstatIface) :
    Prop where
  name : shown.name = cur.name
  rxBytes : shown.rxBytes = cur.rxBytes
  rxPackets : shown.rxPackets = cur.rxPackets
  txBytes : shown.txBytes = cur.txBytes
  txPackets : shown.txPackets = cur.txPackets
  changes : ∀ prev, findPrevious old cur.name = some prev →
    shown.rxBytesDelta = (cur.rxBytes - prev.rxBytes).toInt64 ∧
      shown.rxPacketsDelta = (cur.rxPackets - prev.rxPackets).toInt64 ∧
      shown.txBytesDelta = (cur.txBytes - prev.txBytes).toInt64 ∧
      shown.txPacketsDelta = (cur.txPackets - prev.txPackets).toInt64 ∧
      shown.rxRate = shown.rxBytesDelta.toInt / max 1 (seconds : ℚ) ∧
      shown.txRate = shown.txBytesDelta.toInt / max 1 (seconds : ℚ)
  fresh : findPrevious old cur.name = none → shown = cur

/-- An interface without its changes. -/
def NetstatIface.raw (iface : NetstatIface) : NetstatIface :=
  { iface with
    rxBytesDelta := 0
    rxPacketsDelta := 0
    txBytesDelta := 0
    txPacketsDelta := 0
    rxRate := 0
    txRate := 0 }

theorem withDeltas_raw (previous : List NetstatIface) (elapsed : ℚ) (cur : NetstatIface) :
    (withDeltas previous elapsed cur).raw = cur.raw := by
  rw [withDeltas]
  cases findPrevious previous cur.name with
  | none => rfl
  | some prev => rfl

theorem findPrevious_raw (ifaces : List NetstatIface) (name : CStr) :
    (findPrevious ifaces name).map NetstatIface.raw =
      findPrevious (ifaces.map NetstatIface.raw) name := by
  rw [findPrevious, findPrevious, List.find?_map]
  rfl

/-- The changes depend on the counters of the earlier interfaces only. -/
theorem withDeltas_congr {previous old : List NetstatIface}
    (h : previous.map NetstatIface.raw = old.map NetstatIface.raw) (elapsed : ℚ)
    (cur : NetstatIface) : withDeltas previous elapsed cur = withDeltas old elapsed cur := by
  have hfind : (findPrevious previous cur.name).map NetstatIface.raw =
      (findPrevious old cur.name).map NetstatIface.raw := by
    rw [findPrevious_raw, findPrevious_raw, h]
  rw [withDeltas, withDeltas]
  cases hprev : findPrevious previous cur.name with
  | none =>
    rw [hprev, Option.map_none] at hfind
    rw [Option.map_eq_none_iff.1 hfind.symm]
  | some prev =>
    rw [hprev, Option.map_some] at hfind
    obtain ⟨prev', hprev', hraw⟩ := Option.map_eq_some_iff.1 hfind.symm
    have hrxBytes : prev'.rxBytes = prev.rxBytes := (congrArg NetstatIface.rxBytes hraw :)
    have hrxPackets : prev'.rxPackets = prev.rxPackets := (congrArg NetstatIface.rxPackets hraw :)
    have htxBytes : prev'.txBytes = prev.txBytes := (congrArg NetstatIface.txBytes hraw :)
    have htxPackets : prev'.txPackets = prev.txPackets := (congrArg NetstatIface.txPackets hraw :)
    simp only [hprev', hrxBytes, hrxPackets, htxBytes, htxPackets]

theorem withDeltas_compared (old : List NetstatIface) {elapsed : ℚ} {seconds : Int}
    (helapsed : elapsed = max 1 (seconds : ℚ)) (cur : NetstatIface) :
    IfaceCompared old seconds cur (withDeltas old elapsed cur) := by
  rw [withDeltas]
  cases hfind : findPrevious old cur.name with
  | none =>
    refine ⟨rfl, rfl, rfl, rfl, rfl, fun prev hprev => ?_, fun _ => rfl⟩
    exact absurd (hfind.symm.trans hprev).symm (Option.some_ne_none prev)
  | some prev =>
    refine ⟨rfl, rfl, rfl, rfl, rfl, fun prev' hprev => ?_, fun hnone => ?_⟩
    · rw [Option.some.inj (hprev.symm.trans hfind), ← helapsed]
      exact ⟨rfl, rfl, rfl, rfl, rfl, rfl⟩
    · exact absurd (hfind.symm.trans hnone) (Option.some_ne_none prev)

/-- The clock's difference is exact, and is one second at least. -/
theorem elapsed_eq {now prev : Int64} (hnow : 0 ≤ now.toInt) (hprev : 0 ≤ prev.toInt) :
    (if (((now - prev).toInt : Int) : ℚ) < 1 then 1 else (((now - prev).toInt : Int) : ℚ)) =
      max 1 ((now.toInt - prev.toInt : Int) : ℚ) := by
  rw [Deltas.toInt_sub_of_nonneg hnow hprev]
  by_cases h : ((now.toInt - prev.toInt : Int) : ℚ) < 1
  · rw [if_pos h, max_eq_left h.le]
  · rw [if_neg h, max_eq_right (not_lt.1 h)]

/-- The service holds the last sample, with changes that do not count, and its time. -/
theorem netstatCollects_last {reads : List NetRead} {old : List NetstatIface × Int64}
    (h : Attempts.last NetRead.sample reads = some old) :
    (netstatCollects reads).current.map NetstatIface.raw = old.1.map NetstatIface.raw ∧
      (netstatCollects reads).lastCollect = old.2 ∧
      (netstatCollects reads).hasPrevious = true := by
  refine Attempts.holds_last (fun (priv : NetstatPriv) b =>
    priv.current.map NetstatIface.raw = b.1.map NetstatIface.raw ∧
      priv.lastCollect = b.2 ∧ priv.hasPrevious = true) ?_ ?_ h
  · intro priv r old hold
    obtain ⟨ifaces, hparse, rfl⟩ := Option.map_eq_some_iff.1 hold
    simp only [netstatCollect, hparse, and_true]
    split
    · rw [List.map_map]
      exact List.map_congr_left fun cur _ => withDeltas_raw _ _ cur
    · rfl
  · intro priv r old hnone hholds
    rw [netstatCollect, Option.map_eq_none_iff.1 hnone]
    exact hholds

theorem netstat_since_last {before : List NetRead} {r : NetRead}
    {old new : List NetstatIface × Int64} (hold : Attempts.last NetRead.sample before = some old)
    (hnew : r.sample = some new) :
    List.Forall₂ (IfaceCompared old.1 (new.2.toInt - old.2.toInt)) new.1
      (netstatCollects (before ++ [r])).current := by
  obtain ⟨hcurrent, htime, hseen⟩ := netstatCollects_last hold
  obtain ⟨ifaces, hparse, rfl⟩ := Option.map_eq_some_iff.1 hnew
  have holdNonneg : 0 ≤ old.2.toInt := by
    obtain ⟨r', _, hr'⟩ := Attempts.exists_of_last hold
    obtain ⟨_, _, rfl⟩ := Option.map_eq_some_iff.1 hr'
    exact r'.now_nonneg
  rw [netstatCollects_snoc]
  simp only [netstatCollect, hparse, hseen, if_true]
  rw [List.forall₂_map_right_iff, htime, elapsed_eq r.now_nonneg holdNonneg]
  refine List.forall₂_same.2 fun cur _ => ?_
  rw [withDeltas_congr hcurrent]
  exact withDeltas_compared old.1 rfl cur

end Netstat

open Meminfo Slabinfo Netstat

/-- Whatever reads failed before, a success compares its sample with that of the last success
before it, and netstat's rates divide by the seconds between the two, by one at least. -/
theorem changes_since_last (qsort : Qsort) :
    (∀ (before : List MeminfoRead) (r : MeminfoRead) (old new : MeminfoData),
      Attempts.last MeminfoRead.sample before = some old → r.sample = some new →
      DataCompared old new (meminfoCollects (before ++ [r]))) ∧
    (∀ (before : List (ProcFile × Bytes)) (r : ProcFile × Bytes) (old new : List SlabCacheInfo),
      Attempts.last (fun r => parseSlabinfo r.1 r.2) before = some old →
      parseSlabinfo r.1 r.2 = some new →
      SlabsCompared qsort old new (slabinfoRun qsort (before ++ [r]))) ∧
    ∀ (before : List NetRead) (r : NetRead) (old new : List NetstatIface × Int64),
      Attempts.last NetRead.sample before = some old → r.sample = some new →
      List.Forall₂ (IfaceCompared old.1 (new.2.toInt - old.2.toInt)) new.1
        (netstatCollects (before ++ [r])).current :=
  ⟨fun _ _ _ _ => meminfo_since_last, fun _ _ _ _ => slabinfo_since_last qsort,
    fun _ _ _ _ => netstat_since_last⟩

/-! ## A read that fails between two others -/

/-- One interface with these bytes received, at this time; `none` for a file that fails. -/
def loRead (bytes : Option String) (now : Nat) (h : now < 60) : NetRead where
  file := bytes.map fun bytes =>
    [.data (CStr.lit ("\n\nlo: " ++ bytes ++ " 1 0 0 0 0 0 0 5 1 0 0 0 0 0 0\n")).bytes]
  buf := []
  now := .ofNat now
  now_nonneg := by
    rw [Int64.toInt_ofNat_of_lt (by omega)]
    exact Int.natCast_nonneg now

theorem changes_since_last_skipping :
    let memory := textRead (CStr.lit "MemTotal: 5 kB").bytes
    let memory' := textRead (CStr.lit "MemTotal: 8 kB").bytes
    let slabs := slabSample "a 1 1 1048576\n" ""
    let slabs' := slabSample "a 1 3 1048576\n" ""
    (∃ old new, DataCompared old new (meminfoCollects ([memory, ⟨none, []⟩] ++ [memory']))) ∧
    (∃ old new, SlabsCompared .merge old new
      (slabinfoRun .merge ([(slabs, []), (none, [])] ++ [(slabs', [])]))) ∧
    ∃ old new, List.Forall₂ (IfaceCompared old 30) new
      (netstatCollects ([loRead (some "5") 10 (by decide), loRead none 20 (by decide)] ++
        [loRead (some "65") 40 (by decide)])).current := by
  intro memory memory' slabs slabs'
  obtain ⟨hmeminfo, hslabinfo, hnetstat⟩ := changes_since_last .merge
  refine ⟨?_, ?_, ?_⟩
  · have hold : (Attempts.last MeminfoRead.sample [memory, ⟨none, []⟩]).isSome := by
      decide +kernel
    have hnew : memory'.sample.isSome := by decide +kernel
    obtain ⟨old, hold⟩ := Option.isSome_iff_exists.1 hold
    obtain ⟨new, hnew⟩ := Option.isSome_iff_exists.1 hnew
    exact ⟨old, new, hmeminfo _ _ old new hold hnew⟩
  · have hold : (Attempts.last (fun r : ProcFile × Bytes => parseSlabinfo r.1 r.2)
        [(slabs, []), (none, [])]).isSome := by decide +kernel
    have hnew : (parseSlabinfo slabs' []).isSome := by decide +kernel
    obtain ⟨old, hold⟩ := Option.isSome_iff_exists.1 hold
    obtain ⟨new, hnew⟩ := Option.isSome_iff_exists.1 hnew
    exact ⟨old, new, hslabinfo _ (slabs', []) old new hold hnew⟩
  · have hold : (Attempts.last NetRead.sample
        [loRead (some "5") 10 (by decide), loRead none 20 (by decide)]).map Prod.snd = some 10 := by
      decide +kernel
    have hnew : (loRead (some "65") 40 (by decide)).sample.map Prod.snd = some 40 := by
      decide +kernel
    obtain ⟨old, hold, holdTime⟩ := Option.map_eq_some_iff.1 hold
    obtain ⟨new, hnew, hnewTime⟩ := Option.map_eq_some_iff.1 hnew
    have hcompared := hnetstat _ _ old new hold hnew
    have hseconds : new.2.toInt - old.2.toInt = 30 := by rw [holdTime, hnewTime]; decide
    rw [hseconds] at hcompared
    exact ⟨old.1, new.1, hcompared⟩

end Qmem
