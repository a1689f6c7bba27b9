import Qmem.Daemon.ConfigFile

/-!
# The command line (`daemon/config.c`)

`getopt_long` the GNU way: options and other arguments in any order, several letters in one
argument, long names cut short as long as they are unambiguous. The arguments are gone through
twice, first for the configuration file and then for everything else.
-/

namespace Qmem

open CLib

/-- `struct option`; `val` is the letter. -/
structure LongOption where
  name : CStr
  hasArg : Bool
  val : UInt8

def longOptions : List LongOption := [
  ⟨.lit "config", true, 0x63⟩,
  ⟨.lit "foreground", false, 0x66⟩,
  ⟨.lit "interval", true, 0x69⟩,
  ⟨.lit "socket", true, 0x73⟩,
  ⟨.lit "port", true, 0x70⟩,
  ⟨.lit "debug", false, 0x64⟩,
  ⟨.lit "help", false, 0x68⟩]

/-- `"c:fi:s:p:dh"`: the letters, with whether they take an argument. -/
def shortOptions : List (UInt8 × Bool) := [
  (0x63, true), (0x66, false), (0x69, true), (0x73, true), (0x70, true), (0x64, false),
  (0x68, false)]

/-- What one call of `getopt_long` returns: a letter with `optarg`, or `'?'`. -/
inductive Getopt where
  | option (opt : UInt8) (optarg : Option CStr)
  | unknown

/-- The letters of one argument, with the option that still waits for its own. -/
def getoptShort : Bytes → List Getopt × Option UInt8
  | [] => ([], none)
  | c :: letters =>
    match shortOptions.find? fun o => o.1 = c with
    | none => ((.unknown :: (getoptShort letters).1), (getoptShort letters).2)
    | some (_, false) => ((.option c none :: (getoptShort letters).1), (getoptShort letters).2)
    | some (_, true) =>
      if letters = [] then ([], some c) else ([.option c (some (cstr (letters ++ [0])))], none)

/-- The long option with this name, or with the only name that begins like that. -/
def findLong (name : Bytes) : Option LongOption :=
  match longOptions.find? fun o => o.name.bytes = name with
  | some o => some o
  | none =>
    match longOptions.filter fun o => name <+: o.name.bytes with
    | [o] => some o
    | _ => none

/-- An argument `--name` or `--name=value`, without the dashes. -/
def getoptName (arg : CStr) : List Getopt × Option UInt8 :=
  match findLong (arg.upTo 0x3d).bytes with
  | none => ([.unknown], none)
  | some o =>
    if 0x3d ∈ arg.bytes then
      if o.hasArg then ([.option o.val (some (cstrTail (cstrFrom arg 0x3d)))], none)
      else ([.unknown], none)
    else if o.hasArg then ([], some o.val)
    else ([.option o.val none], none)

/-- The calls of `getopt_long`, until it returns -1; `waiting` is an option whose argument comes
next. -/
def getoptLong : Option UInt8 → List CStr → List Getopt
  | none, [] => []
  | some _, [] => [.unknown]
  | some opt, arg :: args => .option opt (some arg) :: getoptLong none args
  | none, arg :: args =>
    if arg = .lit "--" then []
    else if (CStr.lit "--").bytes <+: arg.bytes then
      let (found, waiting) := getoptName (cstrTail (cstrTail arg))
      found ++ getoptLong waiting args
    else if (CStr.lit "-").bytes <+: arg.bytes ∧ arg ≠ .lit "-" then
      let (found, waiting) := getoptShort arg.bytes.tail
      found ++ getoptLong waiting args
    else getoptLong none args

/-- The first pass: the last `-c`. -/
def configPath (opts : List Getopt) : Option CStr :=
  opts.foldl (fun file opt =>
    match opt with
    | .option 0x63 optarg => optarg
    | _ => file) none

/-- Why `config_parse_args` does not return 0: it returns -1, or it prints the usage and exits. -/
inductive ParseStop where
  | rejected
  | exited

/-- The `switch` of the second pass. -/
def configOption (cfg : Config) : Getopt → Except ParseStop Config
  | .option 0x63 _ => .ok cfg
  | .option 0x66 _ => .ok { cfg with foreground := true }
  | .option 0x69 (some optarg) => .ok { cfg with intervalSec := atoi optarg.bytes }
  | .option 0x73 (some optarg) => .ok { cfg with socketPath := cfg.socketPath.strncpy optarg }
  | .option 0x70 (some optarg) => .ok { cfg with webPort := atoi optarg.bytes }
  | .option 0x64 _ => .ok { cfg with logLevel := .debug }
  | .option 0x68 _ => .error .exited
  | _ => .error .rejected

/-- `config_parse_args`; `files` are the files that can be opened, `args` the arguments behind the
program's name. -/
def configParseArgs (files : CStr → Option Bytes) (cfg : Config) (args : List CStr) :
    Except ParseStop Config :=
  let opts := getoptLong none args
  let cfg :=
    match configPath opts with
    | some path => configLoad cfg (files path)
    | none => cfg
  opts.foldlM configOption cfg

/-- A file system with this one file. -/
def oneFile (text : String) (path : CStr) : Option Bytes :=
  if path = .lit "qmem.conf" then some (CStr.lit text).bytes else none

/-! ## What the arguments change -/

/-- The interval an option gives. -/
def Getopt.interval : Getopt → Option Int32
  | .option 0x69 (some optarg) => some (atoi optarg.bytes)
  | _ => none

/-- A configuration without what the command line can set. -/
def Config.fileOnly (cfg : Config) : Config :=
  { cfg with
    intervalSec := 0
    foreground := false
    socketPath := .zero 255
    webPort := 0
    logLevel := .debug }

theorem configOption_ok {cfg cfg' : Config} {opt : Getopt} (h : configOption cfg opt = .ok cfg') :
    cfg'.intervalSec = opt.interval.getD cfg.intervalSec ∧ cfg'.fileOnly = cfg.fileOnly := by
  unfold configOption at h
  split at h
  all_goals cases h
  all_goals exact ⟨rfl, rfl⟩

/-- The text of the file that the arguments name. -/
def fileGiven (files : CStr → Option Bytes) (args : List CStr) : Option Bytes :=
  (configPath (getoptLong none args)).bind files

/-- The interval the arguments give, or the one before. -/
def intervalGiven (args : List CStr) (before : Int32) : Int32 :=
  Assign.last Getopt.interval (getoptLong none args) before

theorem configParseArgs_ok {files : CStr → Option Bytes} {cfg cfg' : Config} {args : List CStr}
    (h : configParseArgs files cfg args = .ok cfg') :
    cfg'.intervalSec = intervalGiven args (configLoad cfg (fileGiven files args)).intervalSec ∧
      cfg'.fileOnly = (configLoad cfg (fileGiven files args)).fileOnly := by
  have hload : (match configPath (getoptLong none args) with
      | some path => configLoad cfg (files path)
      | none => cfg) = configLoad cfg (fileGiven files args) := by
    rw [fileGiven]
    cases configPath (getoptLong none args) <;> rfl
  rw [configParseArgs, hload] at h
  constructor
  · exact Assign.get_foldlM Config.intervalSec configOption
      (fun _ _ _ hstep => (configOption_ok hstep).1) h
  · have hstep (cfg : Config) (opt : Getopt) (cfg' : Config) (h : configOption cfg opt = .ok cfg') :
        cfg'.fileOnly = (none : Option Config).getD cfg.fileOnly := (configOption_ok h).2
    rw [Assign.get_foldlM Config.fileOnly configOption hstep h, Assign.last, List.filterMap_none]
    rfl

end Qmem
