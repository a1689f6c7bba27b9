import Qmem.Builder
import Qmem.Lib.Lines
import Qmem.Lib.Scanf
import Qmem.ProcUtils

/-!
# Virtual memory counters (`services/vmstat.c`)
-/

namespace Qmem

open CLib

namespace Vmstat

/-- `vmstat_data_t`, all there is in `vmstat_priv_t`. -/
structure VmstatData where
  nrSlabUnreclaimable : Int64
  nrSlabReclaimable : Int64
  nrVmalloc : Int64
  nrKernelStack : Int64
  nrPageTablePages : Int64
  nrDirty : Int64
  nrWriteback : Int64

/-- `memset(data, 0, sizeof(*data))`. -/
def zeroData : VmstatData where
  nrSlabUnreclaimable := 0
  nrSlabReclaimable := 0
  nrVmalloc := 0
  nrKernelStack := 0
  nrPageTablePages := 0
  nrDirty := 0
  nrWriteback := 0

def vmstatInit : VmstatData := zeroData

/-! ## Collecting -/

/-- The chain of comparisons in `parse_vmstat`. The branch of `nr_vmscan_write` is empty, so
nothing sets `nrVmalloc`. -/
def VmstatData.set (data : VmstatData) (key : CStr) (value : Int64) : VmstatData :=
  if key = .lit "nr_slab_unreclaimable" then { data with nrSlabUnreclaimable := value }
  else if key = .lit "nr_slab_reclaimable" then { data with nrSlabReclaimable := value }
  else if key = .lit "nr_vmscan_write" then data
  else if key = .lit "nr_kernel_stack" then { data with nrKernelStack := value }
  else if key = .lit "nr_page_table_pages" then { data with nrPageTablePages := value }
  else if key = .lit "nr_dirty" then { data with nrDirty := value }
  else if key = .lit "nr_writeback" then { data with nrWriteback := value }
  else data

def vmstatFormat : List Directive := [.string 63, .blank, .signed]

/-- The body of the loop of `parse_vmstat`; `line` is the rest of the text. -/
def vmstatLine (data : VmstatData) (line : Bytes) : VmstatData :=
  match sscanf vmstatFormat line with
  | [.text key, .signed value] => data.set (cstr (key ++ [0])) value
  | _ => data

/-- `parse_vmstat`, with the array `buf`; `none` for -1. -/
def parseVmstat (file : ProcFile) (buf : Bytes) : Option VmstatData :=
  match procReadFile file buf 32768 with
  | (_, none) => none
  | (buf, some _) => some ((lineStarts (cstr buf).bytes).foldl vmstatLine zeroData)

/-- `vmstat_collect`; false is for -1. -/
def vmstatCollect (file : ProcFile) (buf : Bytes) (data : VmstatData) : VmstatData × Bool :=
  match parseVmstat file buf with
  | none => (data, false)
  | some data => (data, true)

/-! ## Reading the results -/

def vmstatSnapshot {δ : Type} (data : VmstatData) : List (JsonCall δ) :=
  objectCalls [[
    .kvInt (.lit "nr_slab_unreclaimable") data.nrSlabUnreclaimable,
    .kvInt (.lit "nr_slab_reclaimable") data.nrSlabReclaimable,
    .kvInt (.lit "nr_vmalloc") data.nrVmalloc,
    .kvInt (.lit "nr_kernel_stack") data.nrKernelStack,
    .kvInt (.lit "nr_page_table_pages") data.nrPageTablePages,
    .kvInt (.lit "nr_dirty") data.nrDirty,
    .kvInt (.lit "nr_writeback") data.nrWriteback]]

end Vmstat

end Qmem
