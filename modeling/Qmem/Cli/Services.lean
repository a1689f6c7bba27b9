import Qmem.Cli.Document

/-!
# `qmemctl watch list` (`cmd_services`)

Main result: `cmd_services_lists`.
-/

namespace Qmem

open CLib

/-- `services` in `cmd_services`: the names and what is said of them. -/
def serviceTable : List (CStr × CStr) := [
  (.lit "meminfo", .lit "System Memory"),
  (.lit "slabinfo", .lit "Slab Cache"),
  (.lit "procmem", .lit "Process Memory"),
  (.lit "heapmon", .lit "Heap Analysis"),
  (.lit "vmstat", .lit "VM Statistics"),
  (.lit "cpuload", .lit "CPU Load"),
  (.lit "netstat", .lit "Network Stats"),
  (.lit "procstat", .lit "Process States"),
  (.lit "sockstat", .lit "Socket Stats"),
  (.lit "procevent", .lit "Process Events")]

/-- `cmd_services`: the rows that it prints. -/
def cmdServices (response : Bytes) : List (CStr × CStr) :=
  serviceTable.filter fun row => (jsonFindKey response row.1).isSome

theorem serviceTable_names :
    ∀ row ∈ serviceTable, serviceNames.contains row.1 = true ∧ identKey row.1 = true ∧
      row.1.bytes.length ≤ 124 := by decide

theorem findSection_isSome_iff {name : CStr} {ss : List ServiceState} :
    (findSection name ss).isSome = true ↔ name ∈ ss.map ServiceState.name := by
  induction ss with
  | nil => simp [findSection]
  | cons st ss ih =>
    rw [findSection, List.map_cons, List.mem_cons]
    by_cases h : st.name = name
    · simp [h]
    · rw [if_neg h, ih]
      exact ⟨Or.inr, fun hmem => hmem.resolve_left (Ne.symm h)⟩

variable {printG : ℚ → CStr} (hprint : ∀ d, 0x22 ∉ (printG d).bytes) {qsort : Qsort}

include hprint

theorem cmdServices_document (now : Int64) (ss : List ServiceState) :
    cmdServices (document printG qsort now ss) =
      serviceTable.filter fun row => (ss.map ServiceState.name).contains row.1 := by
  refine List.filter_congr fun row hrow => ?_
  obtain ⟨hname, hk, hlen⟩ := serviceTable_names row hrow
  rw [jsonFindKey_eq hlen, strstr_section hprint hname hk, Option.isSome_map, Bool.eq_iff_iff,
    findSection_isSome_iff, List.contains_iff_mem]

end Qmem
