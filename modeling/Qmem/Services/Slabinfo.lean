import Qmem.Builder
import Qmem.Lib.Lines
import Qmem.Lib.Qsort
import Qmem.Lib.Scanf
import Qmem.ProcUtils

/-!
# Slab caches (`services/slabinfo.c`)

The caches of `/proc/slabinfo`, now and at the last sample, with those that grew and shrank most.
Each array is the list of its entries up to its count.
-/

namespace Qmem

open CLib

namespace Slabinfo

def maxSlabs : Nat := 512
def topN : Nat := 20
def minDeltaBytes : Int64 := 512 * 1024

/-- `slab_cache_info_t`. -/
structure SlabCacheInfo where
  name : CStr
  sizeBytes : Int64
  numObjs : Int32
  objSize : Int32

/-- `slab_entry_t`. -/
structure SlabEntry where
  name : CStr
  sizeBytes : Int64
  deltaBytes : Int64
  numObjs : Int32
  deltaObjs : Int32
  objSize : Int32

/-- `slabinfo_priv_t`. -/
structure SlabinfoPriv where
  current : List SlabCacheInfo
  previous : List SlabCacheInfo
  hasPrevious : Bool
  growers : List SlabEntry
  shrinkers : List SlabEntry

def slabinfoInit : SlabinfoPriv where
  current := []
  previous := []
  hasPrevious := false
  growers := []
  shrinkers := []

/-! ## Collecting -/

/-- The format of the line of a cache. -/
def slabFormat : List Directive :=
  [.string 63, .blank, .signed, .blank, .signed, .blank, .signed]

/-- The body of the loop of `parse_slabinfo`; `line` is the rest of the text, from the start of a
line. The header lines are skipped. -/
def slabLine (slabs : List SlabCacheInfo) (line : Bytes) : List SlabCacheInfo :=
  if (CStr.lit "slabinfo").bytes <+: line ∨ line.head? = some 0x23 then slabs
  else
    match sscanf slabFormat line with
    | [.text name, .signed _, .signed numObjs, .signed objSize] =>
      slabs ++ [{
        name := cstr (name ++ [0])
        sizeBytes := numObjs.toInt32.toInt64 * objSize.toInt32.toInt64
        numObjs := numObjs.toInt32
        objSize := objSize.toInt32 }]
    | _ => slabs

/-- The loop: it ends when the array is full. -/
def slabLoop : List Bytes → List SlabCacheInfo → List SlabCacheInfo
  | [], slabs => slabs
  | line :: lines, slabs =>
    if slabs.length < maxSlabs then slabLoop lines (slabLine slabs line) else slabs

/-- `parse_slabinfo`, with the array `buf`; `none` for -1. -/
def parseSlabinfo (file : ProcFile) (buf : Bytes) : Option (List SlabCacheInfo) :=
  match procReadFile file buf 65536 with
  | (_, none) => none
  | (buf, some _) => some (slabLoop (lineStarts (cstr buf).bytes) [])

def findSlab (slabs : List SlabCacheInfo) (name : CStr) : Option SlabCacheInfo :=
  slabs.find? fun slab => slab.name = name

def compareGrowers : SlabEntry → SlabEntry → Int := compareDescending fun e => e.deltaBytes

def compareShrinkers : SlabEntry → SlabEntry → Int := compareAscending fun e => e.deltaBytes

/-- The body of the loop of `slabinfo_collect`: what becomes of a cache in `all_changes`. -/
def slabChange (previous : List SlabCacheInfo) (cur : SlabCacheInfo) : Option SlabEntry :=
  (findSlab previous cur.name).bind fun prev =>
    let delta := cur.sizeBytes - prev.sizeBytes
    let absDelta := if delta < 0 then -delta else delta
    if absDelta ≥ minDeltaBytes then
      some {
        name := cur.name.cut 63
        sizeBytes := cur.sizeBytes
        deltaBytes := delta
        numObjs := cur.numObjs
        deltaObjs := cur.numObjs - prev.numObjs
        objSize := cur.objSize }
    else none

/-- `slabinfo_collect`, and whether it succeeds; `buf` is what the array of `parse_slabinfo` holds
before. -/
def slabinfoCollect (qsort : Qsort) (priv : SlabinfoPriv) (file : ProcFile) (buf : Bytes) :
    SlabinfoPriv × Bool :=
  let priv := { priv with previous := priv.current }
  match parseSlabinfo file buf with
  | none => (priv, false)
  | some current =>
    let priv := { priv with current, growers := [], shrinkers := [] }
    let priv :=
      if priv.hasPrevious then
        let allChanges := priv.current.filterMap (slabChange priv.previous)
        let allChanges := qsort.sort compareGrowers allChanges
        let growers := (allChanges.filter fun e => e.deltaBytes > 0).take topN
        let allChanges := qsort.sort compareShrinkers allChanges
        let shrinkers := (allChanges.filter fun e => e.deltaBytes < 0).take topN
        { priv with growers, shrinkers }
      else priv
    ({ priv with hasPrevious := true }, true)

/-! ## Reading the results -/

def compareConsumers : SlabEntry → SlabEntry → Int := compareDescending fun e => e.sizeBytes

/-- The body of the loop of `slabinfo_get_top_consumers`. -/
def consumer (priv : SlabinfoPriv) (cur : SlabCacheInfo) : Option SlabEntry :=
  if cur.sizeBytes = 0 then none
  else
    let prev := if priv.hasPrevious then findSlab priv.previous cur.name else none
    some {
      name := cur.name.cut 63
      sizeBytes := cur.sizeBytes
      deltaBytes := (prev.map fun prev => cur.sizeBytes - prev.sizeBytes).getD 0
      numObjs := cur.numObjs
      deltaObjs := (prev.map fun prev => cur.numObjs - prev.numObjs).getD 0
      objSize := cur.objSize }

def slabinfoGetTopConsumers (qsort : Qsort) (priv : SlabinfoPriv) (maxEntries : Nat) :
    List SlabEntry :=
  (qsort.sort compareConsumers (priv.current.filterMap (consumer priv))).take maxEntries

def slabinfoGetTopGrowers (priv : SlabinfoPriv) (maxEntries : Nat) : List SlabEntry :=
  priv.growers.take maxEntries

def slabinfoGetTopShrinkers (priv : SlabinfoPriv) (maxEntries : Nat) : List SlabEntry :=
  priv.shrinkers.take maxEntries

section

variable {δ : Type}

/-- The body of both loops of `slabinfo_snapshot`. -/
def changeCalls (e : SlabEntry) : List (JsonCall δ) :=
  objectCalls [[
    .kvString (.lit "name") (some e.name),
    .kvInt (.lit "size_bytes") e.sizeBytes,
    .kvInt (.lit "delta_bytes") e.deltaBytes,
    .kvInt (.lit "num_objs") e.numObjs.toInt64,
    .kvInt (.lit "delta_objs") e.deltaObjs.toInt64,
    .kvInt (.lit "obj_size") e.objSize.toInt64]]

def slabinfoSnapshot (priv : SlabinfoPriv) : List (JsonCall δ) :=
  objectCalls [
    [.kvInt (.lit "total_caches") (Int64.ofNat priv.current.length)],
    .key (.lit "top_growers") :: arrayCalls priv.growers changeCalls,
    .key (.lit "top_shrinkers") :: arrayCalls priv.shrinkers changeCalls]

end

end Slabinfo

end Qmem
