import Qmem.Lib.CharArray
import Qmem.Lib.Stdio
import Qmem.Lib.Strto

/-!
# The configuration (`daemon/config.c`)

Defaults, and a file in INI format that overrides them. The file is read into an array of 512
bytes, so a longer line comes in pieces, each of which is taken for a line.
-/

namespace Qmem

open CLib

/-- The levels of `common/log.h`. -/
inductive LogLevel where
  | debug
  | info
  | warn
  | error
deriving DecidableEq

/-- `qmem_config_t`. -/
structure Config where
  intervalSec : Int32
  foreground : Bool
  pidfile : CharArray 255
  socketPath : CharArray 255
  logLevel : LogLevel
  procMinDeltaKb : Int64
  slabMinDeltaKb : Int64
  procTopN : Int32
  slabTopN : Int32
  heapScanTopN : Int32
  svcMeminfo : Bool
  svcSlabinfo : Bool
  svcProcmem : Bool
  svcHeapmon : Bool
  svcVmstat : Bool
  svcCpuload : Bool
  svcNetstat : Bool
  svcProcstat : Bool
  webEnabled : Bool
  webListen : CharArray 63
  webPort : Int32
  enablePlugins : Bool
  pluginDir : CharArray 255
  maxSnapshots : Int32

def configInitDefaults : Config where
  intervalSec := 10
  foreground := false
  pidfile := (CharArray.zero 255).strncpy (.lit "/run/qmem.pid")
  socketPath := (CharArray.zero 255).strncpy (.lit "/run/qmem.sock")
  logLevel := .info
  procMinDeltaKb := 1024
  slabMinDeltaKb := 512
  procTopN := 12
  slabTopN := 20
  heapScanTopN := 12
  svcMeminfo := true
  svcSlabinfo := true
  svcProcmem := true
  svcHeapmon := true
  svcVmstat := true
  svcCpuload := true
  svcNetstat := true
  svcProcstat := true
  webEnabled := true
  webListen := (CharArray.zero 63).strncpy (.lit "0.0.0.0")
  webPort := 8080
  enablePlugins := true
  pluginDir := (CharArray.zero 255).strncpy (.lit "/usr/lib/qmem/plugins")
  maxSnapshots := 360

/-! ## Strings -/

/-- The string from its first `c` on. -/
def cstrFrom (s : CStr) (c : UInt8) : CStr where
  bytes := s.bytes.dropWhile (· ≠ c)
  nulFree h := s.nulFree ((List.dropWhile_sublist _).mem h)

/-- `s + 1`. -/
def cstrTail (s : CStr) : CStr where
  bytes := s.bytes.tail
  nulFree h := s.nulFree (List.mem_of_mem_tail h)

/-- The two loops of `trim`; the second one does not look at the first character. -/
def trimBytes (s : Bytes) : Bytes :=
  match s.dropWhile isspace with
  | [] => []
  | c :: s => c :: (s.reverse.dropWhile isspace).reverse

theorem trimBytes_subset (s : Bytes) : trimBytes s ⊆ s := by
  intro b hb
  have hsub := (List.dropWhile_sublist isspace (l := s)).subset
  rw [trimBytes] at hb
  cases hdrop : s.dropWhile isspace with
  | nil =>
    rw [hdrop] at hb
    exact absurd hb List.not_mem_nil
  | cons c rest =>
    rw [hdrop] at hb hsub
    rcases List.mem_cons.1 hb with rfl | hb
    · exact hsub List.mem_cons_self
    · have hrest := (List.dropWhile_sublist isspace).subset (List.mem_reverse.1 hb)
      exact hsub (List.mem_cons_of_mem c (List.mem_reverse.1 hrest))

def trim (str : CStr) : CStr where
  bytes := trimBytes str.bytes
  nulFree h := str.nulFree (trimBytes_subset str.bytes h)

def parseBool (str : CStr) : Bool := str = .lit "true" ∨ str = .lit "1" ∨ str = .lit "yes"

/-! ## The file -/

section

variable (cfg : Config) (key val : CStr)

def configDaemon : Config :=
  if key = .lit "interval" then { cfg with intervalSec := atoi val.bytes }
  else if key = .lit "foreground" then { cfg with foreground := parseBool val }
  else if key = .lit "pidfile" then { cfg with pidfile := cfg.pidfile.strncpy val }
  else if key = .lit "socket" then { cfg with socketPath := cfg.socketPath.strncpy val }
  else if key = .lit "log_level" then
    if val = .lit "debug" then { cfg with logLevel := .debug }
    else if val = .lit "info" then { cfg with logLevel := .info }
    else if val = .lit "warn" then { cfg with logLevel := .warn }
    else if val = .lit "error" then { cfg with logLevel := .error }
    else cfg
  else cfg

def configThresholds : Config :=
  if key = .lit "proc_min_delta_kb" then { cfg with procMinDeltaKb := atoll val.bytes }
  else if key = .lit "slab_min_delta_kb" then { cfg with slabMinDeltaKb := atoll val.bytes }
  else if key = .lit "proc_top_n" then { cfg with procTopN := atoi val.bytes }
  else if key = .lit "slab_top_n" then { cfg with slabTopN := atoi val.bytes }
  else if key = .lit "heap_scan_top_n" then { cfg with heapScanTopN := atoi val.bytes }
  else cfg

def configServices : Config :=
  if key = .lit "meminfo" then { cfg with svcMeminfo := parseBool val }
  else if key = .lit "slabinfo" then { cfg with svcSlabinfo := parseBool val }
  else if key = .lit "procmem" then { cfg with svcProcmem := parseBool val }
  else if key = .lit "heapmon" then { cfg with svcHeapmon := parseBool val }
  else if key = .lit "vmstat" then { cfg with svcVmstat := parseBool val }
  else cfg

def configWeb : Config :=
  if key = .lit "enabled" then { cfg with webEnabled := parseBool val }
  else if key = .lit "listen" then { cfg with webListen := cfg.webListen.strncpy val }
  else if key = .lit "port" then { cfg with webPort := atoi val.bytes }
  else cfg

def configHistory : Config :=
  if key = .lit "max_snapshots" then { cfg with maxSnapshots := atoi val.bytes }
  else cfg

/-- The chain of comparisons with the section's name. -/
def configSet (name : CStr) : Config :=
  if name = .lit "daemon" then configDaemon cfg key val
  else if name = .lit "thresholds" then configThresholds cfg key val
  else if name = .lit "services" then configServices cfg key val
  else if name = .lit "web" then configWeb cfg key val
  else if name = .lit "history" then configHistory cfg key val
  else cfg

end

/-- The variables of the loop of `config_load`. -/
structure Loading where
  sectionName : CharArray 63
  cfg : Config

/-- The body of the loop, for what `fgets` has read. -/
def configLine (s : Loading) (line : Bytes) : Loading :=
  let l := trim (cstr (line ++ [0]))
  match l.bytes.head? with
  | none => s
  | some c =>
    if c = 0x23 ∨ c = 0x3b then s
    else if c = 0x5b then
      if 0x5d ∈ l.bytes then
        { s with sectionName := s.sectionName.strncpy (cstrTail (l.upTo 0x5d)) }
      else s
    else if 0x3d ∈ l.bytes then
      let key := trim (l.upTo 0x3d)
      let val := trim (cstrTail (cstrFrom l 0x3d))
      { s with cfg := configSet s.cfg key val s.sectionName.text }
    else s

/-- `config_load`; the file is `none` if it cannot be opened. It never fails. -/
def configLoad (cfg : Config) (file : Option Bytes) : Config :=
  match file with
  | none => cfg
  | some text => ((fgetsAll 512 text).foldl configLine { sectionName := .zero 63, cfg }).cfg

end Qmem
