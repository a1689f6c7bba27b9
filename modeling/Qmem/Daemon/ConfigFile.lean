import Mathlib.Data.List.Nodup
import Qmem.Daemon.Config
import Qmem.Lib.Assign

/-!
# What a configuration file says

The INI format: sections under their headers, and in them assignments, the last of which counts.
`config_load` reads it that way, but it does not know the section `[plugins]`.

Main result: `config_file_right_iff`.
-/

namespace Qmem

open CLib

/-! ## The options -/

inductive OptionValue where
  | int (n : Int32)
  | long (n : Int64)
  | bool (b : Bool)
  | text (s : CStr)
  | level (l : LogLevel)
deriving DecidableEq

/-- An option: where it stands, what a text for it means, and which field it is. -/
structure ConfigOption where
  sectionName : CStr
  key : CStr
  convert : CStr → Option OptionValue
  get : Config → OptionValue

/-- An option that `config_load` knows, with what it does. -/
structure ConfigSetting extends ConfigOption where
  update : Config → CStr → Config

section

variable (sectionName key : String)

def intSetting (get : Config → Int32) (set : Config → Int32 → Config) : ConfigSetting where
  sectionName := .lit sectionName
  key := .lit key
  convert val := some (.int (atoi val.bytes))
  get cfg := .int (get cfg)
  update cfg val := set cfg (atoi val.bytes)

def longSetting (get : Config → Int64) (set : Config → Int64 → Config) : ConfigSetting where
  sectionName := .lit sectionName
  key := .lit key
  convert val := some (.long (atoll val.bytes))
  get cfg := .long (get cfg)
  update cfg val := set cfg (atoll val.bytes)

def boolSetting (get : Config → Bool) (set : Config → Bool → Config) : ConfigSetting where
  sectionName := .lit sectionName
  key := .lit key
  convert val := some (.bool (parseBool val))
  get cfg := .bool (get cfg)
  update cfg val := set cfg (parseBool val)

def textSetting {n : Nat} (get : Config → CharArray n) (set : Config → CharArray n → Config) :
    ConfigSetting where
  sectionName := .lit sectionName
  key := .lit key
  convert val := some (.text (val.cut n))
  get cfg := .text (get cfg).text
  update cfg val := set cfg ((get cfg).strncpy val)

end

/-- The names of the levels. -/
def levelNamed (val : CStr) : Option LogLevel :=
  if val = .lit "debug" then some .debug
  else if val = .lit "info" then some .info
  else if val = .lit "warn" then some .warn
  else if val = .lit "error" then some .error
  else none

def levelSetting : ConfigSetting where
  sectionName := .lit "daemon"
  key := .lit "log_level"
  convert val := (levelNamed val).map .level
  get cfg := .level cfg.logLevel
  update cfg val := { cfg with logLevel := (levelNamed val).getD cfg.logLevel }

structure ConfigSection where
  name : CStr
  settings : List ConfigSetting

/-- What `config_load` knows. -/
def configSections : List ConfigSection := [
  { name := .lit "daemon", settings := [
    intSetting "daemon" "interval" (·.intervalSec) ({ · with intervalSec := · }),
    boolSetting "daemon" "foreground" (·.foreground) ({ · with foreground := · }),
    textSetting "daemon" "pidfile" (·.pidfile) ({ · with pidfile := · }),
    textSetting "daemon" "socket" (·.socketPath) ({ · with socketPath := · }),
    levelSetting] },
  { name := .lit "thresholds", settings := [
    longSetting "thresholds" "proc_min_delta_kb" (·.procMinDeltaKb) ({ · with procMinDeltaKb := · }),
    longSetting "thresholds" "slab_min_delta_kb" (·.slabMinDeltaKb) ({ · with slabMinDeltaKb := · }),
    intSetting "thresholds" "proc_top_n" (·.procTopN) ({ · with procTopN := · }),
    intSetting "thresholds" "slab_top_n" (·.slabTopN) ({ · with slabTopN := · }),
    intSetting "thresholds" "heap_scan_top_n" (·.heapScanTopN) ({ · with heapScanTopN := · })] },
  { name := .lit "services", settings := [
    boolSetting "services" "meminfo" (·.svcMeminfo) ({ · with svcMeminfo := · }),
    boolSetting "services" "slabinfo" (·.svcSlabinfo) ({ · with svcSlabinfo := · }),
    boolSetting "services" "procmem" (·.svcProcmem) ({ · with svcProcmem := · }),
    boolSetting "services" "heapmon" (·.svcHeapmon) ({ · with svcHeapmon := · }),
    boolSetting "services" "vmstat" (·.svcVmstat) ({ · with svcVmstat := · })] },
  { name := .lit "web", settings := [
    boolSetting "web" "enabled" (·.webEnabled) ({ · with webEnabled := · }),
    textSetting "web" "listen" (·.webListen) ({ · with webListen := · }),
    intSetting "web" "port" (·.webPort) ({ · with webPort := · })] },
  { name := .lit "history", settings := [
    intSetting "history" "max_snapshots" (·.maxSnapshots) ({ · with maxSnapshots := · })] }]

def configSettings : List ConfigSetting := configSections.flatMap ConfigSection.settings

theorem nodup_sections : (configSections.map fun s => s.name.bytes).Nodup := by decide +kernel

theorem nodup_settings :
    (configSettings.map fun o => (o.sectionName.bytes, o.key.bytes)).Nodup := by decide +kernel

/-- The chains of comparisons, as searches. -/
theorem configSet_eq (cfg : Config) (key val name : CStr) :
    configSet cfg key val name =
      (configSections.find? fun s => name = s.name).elim cfg fun s =>
        (s.settings.find? fun o => key = o.key).elim cfg fun o => o.update cfg val := by
  have hlevel : (if val = .lit "debug" then { cfg with logLevel := .debug }
      else if val = .lit "info" then { cfg with logLevel := .info }
      else if val = .lit "warn" then { cfg with logLevel := .warn }
      else if val = .lit "error" then { cfg with logLevel := .error }
      else cfg) = levelSetting.update cfg val := by
    simp only [levelSetting, levelNamed]
    split_ifs <;> rfl
  rw [configSections]
  simp only [Assign.elim_find?_cons]
  rw [configSet, configDaemon, hlevel]
  rfl

/-! ## What an assignment changes -/

theorem get_update_same {o : ConfigSetting} (ho : o ∈ configSettings) (cfg : Config) (val : CStr) :
    o.get (o.update cfg val) = (o.convert val).getD (o.get cfg) := by
  have hlevel : levelSetting.get (levelSetting.update cfg val) =
      (levelSetting.convert val).getD (levelSetting.get cfg) :=
    (Option.getD_map _ _ _).symm
  revert o
  simp only [configSettings, configSections, List.flatMap_cons, List.flatMap_nil, List.cons_append,
    List.nil_append, List.forall_mem_cons, hlevel, intSetting, longSetting, boolSetting,
    textSetting, CharArray.text_strncpy, Option.getD_some, List.not_mem_nil, false_imp_iff,
    implies_true, and_self]

theorem get_update_other {o o' : ConfigSetting} (ho : o ∈ configSettings)
    (ho' : o' ∈ configSettings) (hne : o ≠ o') (cfg : Config) (val : CStr) :
    o.get (o'.update cfg val) = o.get cfg := by
  have hall : ∀ o ∈ configSettings, ∀ o' ∈ configSettings,
      o = o' ∨ o.get (o'.update cfg val) = o.get cfg := by
    simp only [configSettings, configSections, List.flatMap_cons, List.flatMap_nil,
      List.cons_append, List.nil_append, List.forall_mem_cons, List.not_mem_nil, false_imp_iff,
      implies_true, and_true, true_or, or_true, intSetting, longSetting, boolSetting, textSetting,
      levelSetting]
  exact (hall o ho o' ho').resolve_left hne

theorem sectionName_eq : ∀ s ∈ configSections, ∀ o ∈ s.settings, o.sectionName = s.name := by
  simp only [configSections, List.forall_mem_cons, List.not_mem_nil, false_imp_iff, implies_true,
    intSetting, longSetting, boolSetting, textSetting, levelSetting, and_self]

theorem eq_of_names {o o' : ConfigSetting} (ho : o ∈ configSettings) (ho' : o' ∈ configSettings)
    (hsection : o.sectionName = o'.sectionName) (hkey : o.key = o'.key) : o = o' := by
  refine List.inj_on_of_nodup_map nodup_settings ho ho' ?_
  rw [hsection, hkey]

theorem section_eq {s s' : ConfigSection} (hs : s ∈ configSections) (hs' : s' ∈ configSections)
    (h : s.name = s'.name) : s = s' :=
  List.inj_on_of_nodup_map nodup_sections hs hs' (congrArg CStr.bytes h)

theorem get_configSet {o : ConfigSetting} (ho : o ∈ configSettings) (cfg : Config)
    (key val name : CStr) :
    o.get (configSet cfg key val name) =
      (if name = o.sectionName ∧ key = o.key then o.convert val else none).getD (o.get cfg) := by
  obtain ⟨s, hs, hos⟩ := List.mem_flatMap.1 ho
  have hname := sectionName_eq s hs o hos
  rw [configSet_eq]
  cases hsection : configSections.find? fun s => name = s.name with
  | none =>
    have hne : name ≠ s.name := by simpa using List.find?_eq_none.1 hsection s hs
    rw [if_neg fun h => hne (h.1.trans hname)]
    rfl
  | some s' =>
    have hs' := List.mem_of_find?_eq_some hsection
    have hname' : name = s'.name := by simpa using List.find?_some hsection
    rw [Option.elim_some]
    cases hsetting : s'.settings.find? fun o => key = o.key with
    | none =>
      have hne : ¬ (name = o.sectionName ∧ key = o.key) := by
        rintro ⟨h, hkey⟩
        have heq : s = s' := section_eq hs hs' (hname.symm.trans (h.symm.trans hname'))
        have hnot := List.find?_eq_none.1 hsetting o (heq ▸ hos)
        exact hnot (by simpa using hkey)
      rw [if_neg hne]
      rfl
    | some o' =>
      have hos' := List.mem_of_find?_eq_some hsetting
      have hkey' : key = o'.key := by simpa using List.find?_some hsetting
      have ho' : o' ∈ configSettings := List.mem_flatMap.2 ⟨s', hs', hos'⟩
      have hsection' := sectionName_eq s' hs' o' hos'
      rw [Option.elim_some]
      split_ifs with h
      · rw [eq_of_names ho ho' (h.1.symm.trans (hname'.trans hsection'.symm))
          (h.2.symm.trans hkey')]
        exact get_update_same ho' cfg val
      · refine get_update_other ho ho' (fun heq => h ⟨?_, ?_⟩) cfg val
        · rw [heq, hsection', hname']
        · rw [heq, hkey']

/-! ## The format -/

/-- Without the white space around it. -/
def stripBytes (s : Bytes) : Bytes :=
  ((s.dropWhile isspace).reverse.dropWhile isspace).reverse

theorem trimBytes_eq (s : Bytes) : trimBytes s = stripBytes s := by
  rw [trimBytes, stripBytes]
  cases hdrop : s.dropWhile isspace with
  | nil => rfl
  | cons c rest =>
    have hc : isspace c = false := by
      have hhead := List.head?_dropWhile_not isspace s
      rw [hdrop] at hhead
      simpa using hhead
    have hlast (xs : Bytes) : (xs ++ [c]).dropWhile isspace = xs.dropWhile isspace ++ [c] := by
      induction xs with
      | nil => rw [List.nil_append, List.dropWhile_cons_of_neg (by simp [hc])]; rfl
      | cons x xs ih =>
        rw [List.cons_append, List.dropWhile_cons, List.dropWhile_cons, ih]
        split <;> rfl
    rw [List.reverse_cons, hlast, List.reverse_append]
    rfl

def strip (s : CStr) : CStr where
  bytes := stripBytes s.bytes
  nulFree h := s.nulFree (trimBytes_subset s.bytes (trimBytes_eq s.bytes ▸ h))

theorem trim_eq (s : CStr) : trim s = strip s := CStr.ext (trimBytes_eq s.bytes)

/-- A line as a string; a NUL would end it. -/
def lineText (line : Bytes) : CStr := strip (cstr (line ++ [0]))

/-- The name of the section, if the line is a header: `[name]`. -/
def iniHeader (line : Bytes) : Option CStr :=
  let l := lineText line
  if l.bytes.head? = some 0x5b ∧ 0x5d ∈ l.bytes then some (cstrTail (l.upTo 0x5d)) else none

/-- The key and the value, if the line is an assignment: `key = value`. -/
def iniAssignment (line : Bytes) : Option (CStr × CStr) :=
  let l := lineText line
  if l.bytes.head? ∉ [some 0x23, some 0x3b, some 0x5b] ∧ 0x3d ∈ l.bytes then
    some (strip (l.upTo 0x3d), strip (cstrTail (cstrFrom l 0x3d)))
  else none

/-- An assignment in its section. -/
structure Assignment where
  sectionName : CStr
  key : CStr
  val : CStr

/-- The section one is in behind these lines. -/
def sectionAfter (lines : List Bytes) : CStr :=
  (lines.filterMap iniHeader).getLast?.getD (.lit "")

/-- A line's assignment, if it is one, behind these lines. -/
def assignmentAfter (lines : List Bytes) (line : Bytes) : Option Assignment :=
  (iniAssignment line).map fun (key, val) => { sectionName := sectionAfter lines, key, val }

/-- The assignments of a file, given by its lines. -/
def assignments (lines : List Bytes) : List Assignment :=
  lines.zipIdx.filterMap fun (line, i) => assignmentAfter (lines.take i) line

/-- The value an assignment gives an option. -/
def ConfigOption.assigned (o : ConfigOption) (a : Assignment) : Option OptionValue :=
  if a.sectionName = o.sectionName ∧ a.key = o.key then o.convert a.val else none

/-- The value an option should have: that of its last assignment. -/
def ConfigOption.value (o : ConfigOption) (lines : List Bytes) (cfg : Config) : OptionValue :=
  Assign.last o.assigned (assignments lines) (o.get cfg)

/-! ## Reading a file -/

theorem sectionAfter_append (lines : List Bytes) (line : Bytes) :
    sectionAfter (lines ++ [line]) = (iniHeader line).getD (sectionAfter lines) := by
  rw [sectionAfter, sectionAfter, List.filterMap_append]
  cases h : iniHeader line with
  | none => simp [h]
  | some name => simp [h]

theorem assignments_append (lines : List Bytes) (line : Bytes) :
    assignments (lines ++ [line]) = assignments lines ++ (assignmentAfter lines line).toList := by
  rw [assignments, assignments, List.zipIdx_append, List.filterMap_append]
  congr 1
  · refine List.filterMap_congr fun (line', i) hi => ?_
    have hlt : i < lines.length := by
      have h := List.snd_lt_of_mem_zipIdx hi
      omega
    simp only [List.take_append_of_le_length hlt.le]
  · rw [Nat.zero_add, List.zipIdx_singleton, List.filterMap_cons, List.filterMap_nil]
    simp only [List.take_left]
    cases assignmentAfter lines line <;> rfl

/-- The state of the loop behind these lines. -/
structure Loading.Reads (cfg : Config) (lines : List Bytes) (s : Loading) : Prop where
  sectionName : s.sectionName.text = (sectionAfter lines).cut 63
  value : ∀ o ∈ configSettings, o.get s.cfg = o.value lines cfg

theorem configLine_cases (s : Loading) (line : Bytes) :
    (iniHeader line = none ∧ iniAssignment line = none ∧ configLine s line = s) ∨
      (∃ name, iniHeader line = some name ∧ iniAssignment line = none ∧
        configLine s line = { s with sectionName := s.sectionName.strncpy name }) ∨
      ∃ key val, iniHeader line = none ∧ iniAssignment line = some (key, val) ∧
        configLine s line = { s with cfg := configSet s.cfg key val s.sectionName.text } := by
  have hl : trim (cstr (line ++ [0])) = lineText line := trim_eq _
  simp only [configLine, iniHeader, iniAssignment, hl, trim_eq]
  cases hhead : (lineText line).bytes.head? with
  | none =>
    have hnil := List.head?_eq_none_iff.1 hhead
    left
    simp [hnil]
  | some c =>
    by_cases hcomment : c = 0x23 ∨ c = 0x3b
    · left
      rcases hcomment with rfl | rfl <;> simp
    · rw [not_or] at hcomment
      by_cases hbracket : c = 0x5b
      · by_cases hclose : 0x5d ∈ (lineText line).bytes
        · right; left
          simp [hbracket, hclose]
        · left
          simp [hbracket, hclose]
      · by_cases hequals : 0x3d ∈ (lineText line).bytes
        · right; right
          simp [hbracket, hequals, hcomment.1, hcomment.2]
        · left
          simp [hbracket, hequals, hcomment.1, hcomment.2]

theorem cut_eq_iff {s name : CStr} {n : Nat} (h : name.length < n) : s.cut n = name ↔ s = name := by
  constructor
  · rintro rfl
    have hlt : (s.bytes.take n).length < n := h
    rw [List.length_take] at hlt
    have hle : s.bytes.length ≤ n := by omega
    exact (CStr.cut_eq_self hle).symm
  · rintro rfl
    exact CStr.cut_eq_self h.le

theorem sectionName_short {o : ConfigSetting} (ho : o ∈ configSettings) :
    o.sectionName.length < 63 := by
  have hall : ∀ n ∈ configSettings.map fun o => o.sectionName.length, n < 63 := by decide +kernel
  exact hall _ (List.mem_map_of_mem ho)

theorem Loading.Reads.step {cfg : Config} {lines : List Bytes} {s : Loading} (h : s.Reads cfg lines)
    (line : Bytes) : (configLine s line).Reads cfg (lines ++ [line]) := by
  have hvalue (o : ConfigOption) : o.value (lines ++ [line]) cfg =
      Assign.last o.assigned (assignmentAfter lines line).toList (o.value lines cfg) := by
    rw [ConfigOption.value, assignments_append, Assign.last_append]
    rfl
  rcases configLine_cases s line with ⟨hheader, hassign, hline⟩ | ⟨name, hheader, hassign, hline⟩ |
    ⟨key, val, hheader, hassign, hline⟩
  · refine ⟨?_, fun o ho => ?_⟩
    · rw [hline, sectionAfter_append, hheader]
      exact h.sectionName
    · rw [hline, hvalue, assignmentAfter, hassign]
      exact h.value o ho
  · refine ⟨?_, fun o ho => ?_⟩
    · rw [hline, sectionAfter_append, hheader]
      exact CharArray.text_strncpy _ _
    · rw [hline, hvalue, assignmentAfter, hassign]
      exact h.value o ho
  · refine ⟨?_, fun o ho => ?_⟩
    · rw [hline, sectionAfter_append, hheader]
      exact h.sectionName
    · rw [hline, hvalue, assignmentAfter, hassign]
      show o.get (configSet s.cfg key val s.sectionName.text) = _
      rw [get_configSet ho, h.value o ho, h.sectionName]
      simp only [cut_eq_iff (sectionName_short ho), Option.map_some, Option.toList_some,
        Assign.last_cons, Assign.last_nil, ConfigOption.assigned]

theorem Loading.reads_start (cfg : Config) :
    Loading.Reads cfg [] { sectionName := .zero 63, cfg } where
  sectionName := by
    show (CharArray.zero 63).text = (CStr.lit "").cut 63
    decide +kernel
  value _ _ := rfl

/-- **What is loaded** of any text, line by line as it is read. -/
theorem configLoad_value (cfg : Config) (text : Bytes) {o : ConfigSetting}
    (ho : o ∈ configSettings) :
    o.get (configLoad cfg (some text)) = o.value (fgetsAll 512 text) cfg := by
  have hreads (lines : List Bytes) :
      (lines.foldl configLine { sectionName := .zero 63, cfg }).Reads cfg lines := by
    induction lines using List.reverseRecOn with
    | nil => exact Loading.reads_start cfg
    | append_singleton lines line ih =>
      rw [List.foldl_append]
      exact ih.step line
  exact (hreads _).value o ho

/-! ## One setting -/

/-- The lines of a file, as they are read. -/
def fileLines (file : Option Bytes) : List Bytes := file.elim [] (fgetsAll 512)

section

variable {β : Type} (sectionName key : String)

/-- What an assignment gives the option with these names. -/
def assignedTo (convert : CStr → β) (a : Assignment) : Option β :=
  if a.sectionName = .lit sectionName ∧ a.key = .lit key then some (convert a.val) else none

/-- What a file gives it. -/
def givenTo (convert : CStr → β) (file : Option Bytes) (before : β) : β :=
  Assign.last (assignedTo sectionName key convert) (assignments (fileLines file)) before

variable {sectionName key}

theorem field_configLoad {o : ConfigSetting} (ho : o ∈ configSettings) {wrap : β → OptionValue}
    (hwrap : Function.Injective wrap) {field : Config → β} {convert : CStr → β}
    (hsection : o.sectionName = .lit sectionName) (hkey : o.key = .lit key)
    (hconvert : ∀ val, o.convert val = some (wrap (convert val)))
    (hget : ∀ cfg, o.get cfg = wrap (field cfg)) (cfg : Config) (file : Option Bytes) :
    field (configLoad cfg file) = givenTo sectionName key convert file (field cfg) := by
  have hassigned (a : Assignment) :
      o.assigned a = (assignedTo sectionName key convert a).map wrap := by
    rw [ConfigOption.assigned, assignedTo, hsection, hkey]
    split
    · exact hconvert a.val
    · rfl
  cases file with
  | none => rfl
  | some text =>
    refine hwrap ?_
    rw [← hget, configLoad_value cfg text ho, ConfigOption.value, hget, funext hassigned,
      Assign.last_map]
    rfl

theorem int_configLoad {get : Config → Int32} {set : Config → Int32 → Config}
    (ho : intSetting sectionName key get set ∈ configSettings) (cfg : Config)
    (file : Option Bytes) : get (configLoad cfg file) =
      givenTo sectionName key (fun val => atoi val.bytes) file (get cfg) :=
  field_configLoad ho (fun _ _ => OptionValue.int.inj) rfl rfl (fun _ => rfl) (fun _ => rfl)
    cfg file

theorem long_configLoad {get : Config → Int64} {set : Config → Int64 → Config}
    (ho : longSetting sectionName key get set ∈ configSettings) (cfg : Config)
    (file : Option Bytes) : get (configLoad cfg file) =
      givenTo sectionName key (fun val => atoll val.bytes) file (get cfg) :=
  field_configLoad ho (fun _ _ => OptionValue.long.inj) rfl rfl (fun _ => rfl) (fun _ => rfl)
    cfg file

theorem bool_configLoad {get : Config → Bool} {set : Config → Bool → Config}
    (ho : boolSetting sectionName key get set ∈ configSettings) (cfg : Config)
    (file : Option Bytes) : get (configLoad cfg file) =
      givenTo sectionName key parseBool file (get cfg) :=
  field_configLoad ho (fun _ _ => OptionValue.bool.inj) rfl rfl (fun _ => rfl) (fun _ => rfl)
    cfg file

end

/-! ## The section that is not read -/

/-- The options of `[plugins]`. -/
def pluginOptions : List ConfigOption := [
  { sectionName := .lit "plugins", key := .lit "enabled"
    convert := fun val => some (.bool (parseBool val))
    get := fun cfg => .bool cfg.enablePlugins },
  { sectionName := .lit "plugins", key := .lit "dir"
    convert := fun val => some (.text (val.cut 255))
    get := fun cfg => .text cfg.pluginDir.text }]

def documentedOptions : List ConfigOption :=
  configSettings.map ConfigSetting.toConfigOption ++ pluginOptions

/-- What no setting touches. -/
structure SamePlugins (cfg cfg' : Config) : Prop where
  enablePlugins : cfg'.enablePlugins = cfg.enablePlugins
  pluginDir : cfg'.pluginDir = cfg.pluginDir

theorem SamePlugins.trans {cfg₁ cfg₂ cfg₃ : Config} (h : SamePlugins cfg₁ cfg₂)
    (h' : SamePlugins cfg₂ cfg₃) : SamePlugins cfg₁ cfg₃ :=
  ⟨h'.enablePlugins.trans h.enablePlugins, h'.pluginDir.trans h.pluginDir⟩

theorem samePlugins_update {o : ConfigSetting} (ho : o ∈ configSettings) (cfg : Config)
    (val : CStr) : SamePlugins cfg (o.update cfg val) := by
  have hall : ∀ o ∈ configSettings, (o.update cfg val).enablePlugins = cfg.enablePlugins ∧
      (o.update cfg val).pluginDir = cfg.pluginDir := by
    simp only [configSettings, configSections, List.flatMap_cons, List.flatMap_nil,
      List.cons_append, List.nil_append, List.forall_mem_cons, List.not_mem_nil, false_imp_iff,
      implies_true, and_self, intSetting, longSetting, boolSetting, textSetting, levelSetting]
  exact ⟨(hall o ho).1, (hall o ho).2⟩

theorem samePlugins_configSet (cfg : Config) (key val name : CStr) :
    SamePlugins cfg (configSet cfg key val name) := by
  rw [configSet_eq]
  cases hsection : configSections.find? fun s => name = s.name with
  | none => exact ⟨rfl, rfl⟩
  | some s =>
    rw [Option.elim_some]
    cases hsetting : s.settings.find? fun o => key = o.key with
    | none => exact ⟨rfl, rfl⟩
    | some o =>
      have ho : o ∈ configSettings := List.mem_flatMap.2
        ⟨s, List.mem_of_find?_eq_some hsection, List.mem_of_find?_eq_some hsetting⟩
      exact samePlugins_update ho cfg val

theorem samePlugins_configLoad (cfg : Config) (file : Option Bytes) :
    SamePlugins cfg (configLoad cfg file) := by
  have hline (s : Loading) (line : Bytes) : SamePlugins s.cfg (configLine s line).cfg := by
    rcases configLine_cases s line with ⟨_, _, h⟩ | ⟨name, _, _, h⟩ | ⟨key, val, _, _, h⟩
    · rw [h]
      exact ⟨rfl, rfl⟩
    · rw [h]
      exact ⟨rfl, rfl⟩
    · rw [h]
      exact samePlugins_configSet s.cfg key val _
  have hlines (lines : List Bytes) (s : Loading) :
      SamePlugins s.cfg (lines.foldl configLine s).cfg := by
    induction lines generalizing s with
    | nil => exact ⟨rfl, rfl⟩
    | cons line lines ih => exact (hline s line).trans (ih _)
  cases file with
  | none => exact ⟨rfl, rfl⟩
  | some text => exact hlines (fgetsAll 512 text) { sectionName := .zero 63, cfg }

theorem get_plugin {o : ConfigOption} (ho : o ∈ pluginOptions) (cfg : Config)
    (file : Option Bytes) : o.get (configLoad cfg file) = o.get cfg := by
  have hsame := samePlugins_configLoad cfg file
  simp only [pluginOptions, List.mem_cons, List.not_mem_nil, or_false] at ho
  rcases ho with rfl | rfl
  · exact congrArg OptionValue.bool hsame.enablePlugins
  · exact congrArg (fun dir => OptionValue.text dir.text) hsame.pluginDir

/-- **A configuration file** sets every documented option as the format says exactly when it leaves
those of `[plugins]` at their values. -/
theorem config_file_right_iff (cfg : Config) (text : Bytes)
    (hfits : ∀ line ∈ linesOf text, line.length < 512) :
    (∀ o ∈ documentedOptions,
        o.get (configLoad cfg (some text)) = o.value (linesOf text) cfg) ↔
      ∀ o ∈ pluginOptions, o.value (linesOf text) cfg = o.get cfg := by
  have hsettings (o : ConfigSetting) (ho : o ∈ configSettings) :
      o.get (configLoad cfg (some text)) = o.value (linesOf text) cfg := by
    rw [configLoad_value cfg text ho, fgetsAll_linesOf hfits]
  rw [documentedOptions, List.forall_mem_append, List.forall_mem_map]
  constructor
  · intro h o ho
    rw [← h.2 o ho, get_plugin ho]
  · intro h
    refine ⟨hsettings, fun o ho => ?_⟩
    rw [h o ho, get_plugin ho]

/-! ## Two files -/

def intervalFile : Bytes := (CStr.lit "[daemon]\ninterval = 5\n; later\ninterval = 7").bytes

theorem config_file_right_interval :
    documentedOptions.map (·.get (configLoad configInitDefaults (some intervalFile))) =
      documentedOptions.map (·.value (linesOf intervalFile) configInitDefaults) :=
  List.map_congr_left <|
    (config_file_right_iff configInitDefaults intervalFile (by decide +kernel)).2
      (by decide +kernel)

def pluginsFile : Bytes := (CStr.lit "[plugins]\nenabled = false\n").bytes

/-- A file that turns off the plugins. -/
theorem config_file_wrong :
    (∀ line ∈ linesOf pluginsFile, line.length < 512) ∧
      ¬ ∀ o ∈ documentedOptions, o.get (configLoad configInitDefaults (some pluginsFile)) =
        o.value (linesOf pluginsFile) configInitDefaults := by
  decide +kernel

end Qmem
