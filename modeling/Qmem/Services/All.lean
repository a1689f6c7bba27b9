import Qmem.EmitParts
import Qmem.Services.Cpuload
import Qmem.Services.Fdmon
import Qmem.Services.Memleak
import Qmem.Services.Netstat
import Qmem.Services.Procevent
import Qmem.Services.Procstat
import Qmem.Services.Sockstat
import Qmem.Services.Vmstat

/-!
# The services

The twelve services, each with its state and its name. Whatever the state is, a snapshot function
writes one object.
-/

namespace Qmem

open CLib Qmem.Tree

/-- The private data of a service. -/
inductive ServiceState where
  | meminfo (priv : Meminfo.MeminfoPriv)
  | slabinfo (priv : Slabinfo.SlabinfoPriv)
  | procmem (priv : Procmem.ProcmemPriv)
  | heapmon (priv : Heapmon.HeapmonPriv)
  | memleak (priv : Memleak.MemleakPriv)
  | vmstat (data : Vmstat.VmstatData)
  | netstat (priv : Netstat.NetstatPriv)
  | procstat (priv : Procstat.ProcstatPriv)
  | sockstat (priv : Sockstat.SockstatPriv)
  | fdmon (priv : Fdmon.FdmonPriv)
  | cpuload (priv : Cpuload.CpuloadPriv)
  | procevent (priv : Procevent.ProceventPriv)

namespace ServiceState

def name : ServiceState → CStr
  | .meminfo _ => .lit "meminfo"
  | .slabinfo _ => .lit "slabinfo"
  | .procmem _ => .lit "procmem"
  | .heapmon _ => .lit "heapmon"
  | .memleak _ => .lit "memleak"
  | .vmstat _ => .lit "vmstat"
  | .netstat _ => .lit "netstat"
  | .procstat _ => .lit "procstat"
  | .sockstat _ => .lit "sockstat"
  | .fdmon _ => .lit "fdmon"
  | .cpuload _ => .lit "cpuload"
  | .procevent _ => .lit "procevent"

/-- The calls of the service's snapshot function. -/
def snapshot (qsort : Qsort) : ServiceState → List (JsonCall ℚ)
  | .meminfo priv => Meminfo.meminfoSnapshot priv
  | .slabinfo priv => Slabinfo.slabinfoSnapshot priv
  | .procmem priv => Procmem.procmemSnapshot priv
  | .heapmon priv => Heapmon.heapmonSnapshot priv
  | .memleak priv => Memleak.memleakSnapshot qsort priv
  | .vmstat data => Vmstat.vmstatSnapshot data
  | .netstat priv => Netstat.netstatSnapshot priv
  | .procstat priv => Procstat.procstatSnapshot priv
  | .sockstat priv => Sockstat.sockstatSnapshot priv
  | .fdmon priv => Fdmon.fdmonSnapshot priv
  | .cpuload priv => Cpuload.cpuloadSnapshot priv
  | .procevent priv => Procevent.proceventSnapshot priv

theorem plainKey_name (st : ServiceState) : plainKey st.name = true := by
  cases st <;> rfl

end ServiceState

/-! ## Each snapshot is one object -/

section

variable {δ : Type}

/-- An object whose members are all said by `kv` calls. -/
theorem emitsObject_flat {cs : List (JsonCall δ)} (h : cs.all isField = true) :
    EmitsObject (objectCalls [cs]) := emitsObject (emitsFields_of_all h)

/-- A member that is such an object. -/
theorem emitsFields_flat {k : CStr} {cs : List (JsonCall δ)} (hk : plainKey k = true)
    (h : cs.all isField = true) : EmitsFields (.key k :: objectCalls [cs]) :=
  .member hk (emitsObject_flat h).value

/-- A member that is an array of objects. -/
theorem emitsFields_array {α : Type} {k : CStr} {xs : List α} {f : α → List (JsonCall δ)}
    (hk : plainKey k = true) (h : ∀ x, EmitsObject (f x)) :
    EmitsFields (.key k :: arrayCalls xs f) := .member hk (emitsArray h)

theorem Meminfo.writeDelta_fields {name : CStr} (hname : plainKey name = true)
    (current previous : Int64) (hasPrev : Bool) :
    EmitsFields (writeDelta name current previous hasPrev) := by
  refine .member hname (EmitsObject.value (emitsObject ⟨emitsFields_of_all rfl, ?_⟩))
  cases hasPrev
  · exact emitsFields_of_all rfl
  · exact emitsFields_of_all rfl

theorem Meminfo.snapshot_object (priv : MeminfoPriv) : EmitsObject (meminfoSnapshot priv) := by
  have delta {name : CStr} (h : plainKey name = true) (current previous : Int64) :
      EmitsFields (writeDelta name current previous priv.hasPrevious) :=
    writeDelta_fields h current previous priv.hasPrevious
  refine emitsObject ⟨emitsFields_of_all rfl, .member rfl (emitsObject ?_).value,
    .member rfl (emitsObject ?_).value, .member rfl (emitsObject ?_).value⟩
  · exact ⟨delta rfl _ _, delta rfl _ _, delta rfl _ _, delta rfl _ _, delta rfl _ _⟩
  · exact ⟨delta rfl _ _, delta rfl _ _, delta rfl _ _, delta rfl _ _, delta rfl _ _,
      delta rfl _ _⟩
  · exact ⟨delta rfl _ _, delta rfl _ _, delta rfl _ _, delta rfl _ _, delta rfl _ _⟩

theorem Slabinfo.snapshot_object (priv : SlabinfoPriv) :
    EmitsObject (slabinfoSnapshot priv : List (JsonCall δ)) := by
  have hchange (e : SlabEntry) : EmitsObject (changeCalls e : List (JsonCall δ)) :=
    emitsObject_flat rfl
  exact emitsObject ⟨emitsFields_of_all rfl, emitsFields_array rfl hchange,
    emitsFields_array rfl hchange⟩

theorem Procmem.snapshot_object (priv : ProcmemPriv) :
    EmitsObject (procmemSnapshot priv : List (JsonCall δ)) := by
  have hgrower (e : ProcmemEntry) : EmitsObject (growerCalls e : List (JsonCall δ)) :=
    emitsObject ⟨emitsFields_of_all rfl, emitsFields_of_all rfl⟩
  have htop (e : ProcmemEntry) : EmitsObject (topRssCalls e : List (JsonCall δ)) :=
    emitsObject_flat rfl
  exact emitsObject ⟨emitsFields_array rfl hgrower, emitsFields_array rfl hgrower,
    emitsFields_array rfl htop⟩

theorem Heapmon.snapshot_object (priv : HeapmonPriv) :
    EmitsObject (heapmonSnapshot priv : List (JsonCall δ)) := by
  have hentry (e : HeapmonEntry) : EmitsObject (entryCalls e : List (JsonCall δ)) :=
    emitsObject_flat rfl
  exact emitsObject (emitsFields_array rfl hentry)

theorem Memleak.snapshot_object (qsort : Qsort) (priv : MemleakPriv) :
    EmitsObject (memleakSnapshot qsort priv : List (JsonCall δ)) := by
  refine emitsObject ⟨emitsFields_flat rfl rfl, emitsFields_array rfl fun e => ?_,
    emitsFields_array rfl fun e => ?_, emitsFields_array rfl fun e => ?_,
    emitsFields_array rfl fun e => ?_⟩
  · exact emitsObject_flat rfl
  · exact emitsObject_flat rfl
  · exact emitsObject_flat rfl
  · exact emitsObject_flat rfl

theorem Netstat.snapshot_object (priv : NetstatPriv) : EmitsObject (netstatSnapshot priv) := by
  have hiface (iface : NetstatIface) : EmitsObject (ifaceCalls iface) :=
    emitsObject ⟨emitsFields_of_all rfl, emitsFields_flat rfl rfl, emitsFields_flat rfl rfl⟩
  exact emitsObject (emitsFields_array rfl hiface)

theorem Procstat.snapshot_object (priv : ProcstatPriv) :
    EmitsObject (procstatSnapshot priv : List (JsonCall δ)) := by
  have hblocked (e : ProcstatEntry) : EmitsObject (blockedCalls e : List (JsonCall δ)) :=
    emitsObject_flat rfl
  exact emitsObject ⟨emitsFields_flat rfl rfl, emitsFields_array rfl hblocked⟩

theorem Sockstat.snapshot_object (priv : SockstatPriv) :
    EmitsObject (sockstatSnapshot priv : List (JsonCall δ)) := by
  have hsocket (s : SocketEntry) : EmitsObject (socketCalls s : List (JsonCall δ)) := by
    refine emitsObject ⟨emitsFields_of_all rfl, ?_⟩
    split
    · exact emitsFields_of_all rfl
    · exact emitsFields_of_all rfl
  exact emitsObject ⟨emitsFields_flat rfl rfl, emitsFields_of_all rfl,
    emitsFields_array rfl hsocket⟩

theorem Fdmon.snapshot_object (priv : FdmonPriv) :
    EmitsObject (fdmonSnapshot priv : List (JsonCall δ)) := by
  have hconsumer (e : FdmonEntry) : EmitsObject (consumerCalls e : List (JsonCall δ)) :=
    emitsObject ⟨emitsFields_of_all rfl, emitsFields_of_all rfl⟩
  have hleaker (e : FdmonEntry) : EmitsObject (leakerCalls e : List (JsonCall δ)) :=
    emitsObject_flat rfl
  exact emitsObject ⟨emitsFields_flat rfl rfl, emitsFields_array rfl hconsumer,
    emitsFields_array rfl hleaker⟩

theorem Cpuload.snapshot_object (priv : CpuloadPriv) : EmitsObject (cpuloadSnapshot priv) := by
  have hconsumer (e : CpuloadEntry) : EmitsObject (consumerCalls e) := emitsObject_flat rfl
  exact emitsObject ⟨emitsFields_flat rfl rfl, emitsFields_array rfl hconsumer⟩

theorem Procevent.snapshot_object (priv : ProceventPriv) :
    EmitsObject (proceventSnapshot priv : List (JsonCall δ)) := by
  have hevent (e : ProcEvent) : EmitsObject (eventCalls e : List (JsonCall δ)) :=
    emitsObject_flat rfl
  exact emitsObject ⟨emitsFields_flat rfl rfl, emitsFields_array rfl hevent⟩

end

/-- **Every service's snapshot is one object**, whatever its state. -/
theorem ServiceState.snapshot_object (qsort : Qsort) (st : ServiceState) :
    EmitsObject (st.snapshot qsort) := by
  cases st with
  | meminfo priv => exact Meminfo.snapshot_object priv
  | slabinfo priv => exact Slabinfo.snapshot_object priv
  | procmem priv => exact Procmem.snapshot_object priv
  | heapmon priv => exact Heapmon.snapshot_object priv
  | memleak priv => exact Memleak.snapshot_object qsort priv
  | vmstat data => exact emitsObject_flat rfl
  | netstat priv => exact Netstat.snapshot_object priv
  | procstat priv => exact Procstat.snapshot_object priv
  | sockstat priv => exact Sockstat.snapshot_object priv
  | fdmon priv => exact Fdmon.snapshot_object priv
  | cpuload priv => exact Cpuload.snapshot_object priv
  | procevent priv => exact Procevent.snapshot_object priv

end Qmem
