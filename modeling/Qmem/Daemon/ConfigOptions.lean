import Qmem.Daemon.ConfigArgs
import Qmem.Lib.Scanf

/-!
# The options as they are typed

The same option can be written in many ways: by its letter or by its name, the name cut short, the
letters of several flags in one argument, the argument attached or behind. All of them are read
back as what was meant, and then the last word on a setting has the last option for it, before it
the file that the last `-c` names, and before that the defaults.

Main result: `command_line_obeyed`.
-/

namespace Qmem

open CLib

/-! ## Ways to write an option -/

/-- An argument, or an option with its own argument behind it. -/
inductive Arg where
  /-- No option: `-`, or anything that begins otherwise. -/
  | word (text : CStr)
  /-- `-fd`. -/
  | flags (letters : CStr)
  /-- `-fdi5`, or `-fdi` and `5`. -/
  | short (letters : CStr) (o : LongOption) (value : CStr) (apart : Bool)
  /-- `--foreground`, or `--fore`. -/
  | longFlag (name : CStr) (o : LongOption)
  /-- `--interval=5`, or `--interval` and `5`. -/
  | long (name : CStr) (o : LongOption) (value : CStr) (apart : Bool)

/-- The letter of an option, as a string. -/
def LongOption.letter (o : LongOption) : CStr := cstr [o.val, 0]

def Arg.text : Arg → List CStr
  | .word text => [text]
  | .flags letters => [.lit "-" ++ letters]
  | .short letters o value false => [.lit "-" ++ (letters ++ (o.letter ++ value))]
  | .short letters o value true => [.lit "-" ++ (letters ++ o.letter), value]
  | .longFlag name _ => [.lit "--" ++ name]
  | .long name _ value false => [.lit "--" ++ (name ++ (.lit "=" ++ value))]
  | .long name _ value true => [.lit "--" ++ name, value]

/-- What is meant. -/
def Arg.options : Arg → List Getopt
  | .word _ => []
  | .flags letters => letters.bytes.map fun c => .option c none
  | .short letters o value _ =>
    (letters.bytes.map fun c => .option c none) ++ [.option o.val (some value)]
  | .longFlag _ o => [.option o.val none]
  | .long _ o value _ => [.option o.val (some value)]

/-- Letters of options that take no argument. -/
def AreFlags (letters : CStr) : Prop :=
  ∀ c ∈ letters.bytes, ∃ o ∈ longOptions, o.val = c ∧ o.hasArg = false

/-- The options are there, they are told apart by what is written of their names, and an argument
is attached only if there is something to attach. -/
def Arg.Valid : Arg → Prop
  | .word text => text = .lit "-" ∨ ¬ (CStr.lit "-").bytes <+: text.bytes
  | .flags letters => letters.bytes ≠ [] ∧ AreFlags letters
  | .short letters o value apart =>
    AreFlags letters ∧ (o ∈ longOptions ∧ o.hasArg = true) ∧ (apart = false → value.bytes ≠ [])
  | .longFlag name o => findLong name.bytes = some o ∧ o.hasArg = false
  | .long name o _ _ => findLong name.bytes = some o ∧ o.hasArg = true

/-! ## Letters -/

theorem find_short {o : LongOption} (ho : o ∈ longOptions) :
    shortOptions.find? (fun p => p.1 = o.val) = some (o.val, o.hasArg) := by
  simp only [longOptions, List.mem_cons, List.not_mem_nil, or_false] at ho
  rcases ho with rfl | rfl | rfl | rfl | rfl | rfl | rfl <;> rfl

theorem val_ne {o : LongOption} (ho : o ∈ longOptions) : o.val ≠ 0 ∧ o.val ≠ 0x2d := by
  simp only [longOptions, List.mem_cons, List.not_mem_nil, or_false] at ho
  rcases ho with rfl | rfl | rfl | rfl | rfl | rfl | rfl <;> decide

theorem letter_bytes {o : LongOption} (ho : o ∈ longOptions) : o.letter.bytes = [o.val] := by
  show [o.val, 0].takeWhile (· ≠ 0) = [o.val]
  simp [(val_ne ho).1]

theorem getoptShort_flag {o : LongOption} (ho : o ∈ longOptions) (hflag : o.hasArg = false)
    (letters : Bytes) : getoptShort (o.val :: letters) =
      (.option o.val none :: (getoptShort letters).1, (getoptShort letters).2) := by
  rw [getoptShort, find_short ho, hflag]

theorem getoptShort_arg {o : LongOption} (ho : o ∈ longOptions) (harg : o.hasArg = true)
    (value : CStr) : getoptShort (o.val :: value.bytes) =
      if value.bytes = [] then ([], some o.val) else ([.option o.val (some value)], none) := by
  rw [getoptShort, find_short ho, harg, value.cstr_terminated]

theorem getoptShort_flags {letters : CStr} (hflags : AreFlags letters) (rest : Bytes) :
    getoptShort (letters.bytes ++ rest) =
      ((letters.bytes.map fun c => .option c none) ++ (getoptShort rest).1,
        (getoptShort rest).2) := by
  rw [AreFlags] at hflags
  generalize letters.bytes = bytes at hflags
  induction bytes with
  | nil => rfl
  | cons c bytes ih =>
    obtain ⟨hhead, htail⟩ := List.forall_mem_cons.1 hflags
    obtain ⟨o, ho, rfl, hflag⟩ := hhead
    rw [List.cons_append, getoptShort_flag ho hflag, ih htail]
    rfl

/-! ## Names -/

theorem findLong_some {name : Bytes} {o : LongOption} (h : findLong name = some o) :
    o ∈ longOptions ∧ name <+: o.name.bytes := by
  rw [findLong] at h
  split at h
  case h_1 o' hfind =>
    cases h
    have hname : o.name.bytes = name := by simpa using List.find?_some hfind
    exact ⟨List.mem_of_find?_eq_some hfind, hname ▸ List.prefix_rfl⟩
  case h_2 =>
    split at h
    case h_1 o' hfilter =>
      cases h
      have hmem : o ∈ longOptions.filter fun o => name <+: o.name.bytes := by simp [hfilter]
      simpa using hmem
    case h_2 => cases h

/-- What is written of a name holds no `=`, and there is something of it. -/
theorem abbreviation {name : CStr} {o : LongOption} (h : findLong name.bytes = some o) :
    (∀ c ∈ name.bytes, decide (c ≠ 0x3d) = true) ∧ name.bytes ≠ [] := by
  obtain ⟨ho, hfront⟩ := findLong_some h
  constructor
  · intro c hc
    have hclean : ∀ o ∈ longOptions, ∀ c ∈ o.name.bytes, c ≠ 0x3d := by decide
    exact decide_eq_true (hclean o ho c (hfront.subset hc))
  · intro hnil
    rw [hnil] at h
    cases h

theorem getoptName_flag {name : CStr} {o : LongOption} (hfind : findLong name.bytes = some o) :
    getoptName name = if o.hasArg then ([], some o.val) else ([.option o.val none], none) := by
  have hupTo : (name.upTo 0x3d).bytes = name.bytes :=
    List.takeWhile_eq_self_iff.2 (abbreviation hfind).1
  rw [getoptName, hupTo, hfind]
  show (if _ then _ else _) = _
  rw [if_neg fun hmem => by simpa using (abbreviation hfind).1 _ hmem]

theorem getoptName_value {name : CStr} {o : LongOption} (hfind : findLong name.bytes = some o)
    (harg : o.hasArg = true) (value : CStr) :
    getoptName (name ++ (.lit "=" ++ value)) = ([.option o.val (some value)], none) := by
  obtain ⟨hname, -⟩ := abbreviation hfind
  have hbytes : (name ++ (.lit "=" ++ value)).bytes = name.bytes ++ 0x3d :: value.bytes := rfl
  have hstop : Stops (fun c => decide (c ≠ 0x3d)) (0x3d :: value.bytes) :=
    stops_cons (by decide) value.bytes
  have hupTo : ((name ++ (.lit "=" ++ value)).upTo 0x3d).bytes = name.bytes :=
    takeWhile_stops hname hstop
  have hvalue : cstrTail (cstrFrom (name ++ (.lit "=" ++ value)) 0x3d) = value := by
    refine CStr.ext ?_
    show ((name ++ (.lit "=" ++ value)).bytes.dropWhile _).tail = _
    rw [hbytes, dropWhile_stops hname hstop, List.tail_cons]
  rw [getoptName, hupTo, hfind, hvalue]
  show (if _ then _ else _) = _
  rw [if_pos (by rw [hbytes]; simp), if_pos harg]

/-! ## Arguments -/

theorem getoptLong_word {text : CStr} (h : (Arg.word text).Valid) (args : List CStr) :
    getoptLong none (text :: args) = getoptLong none args := by
  have hnot : ¬ ((CStr.lit "-").bytes <+: text.bytes ∧ text ≠ .lit "-") := by
    rintro ⟨hdash, hne⟩
    exact h.elim hne fun hno => hno hdash
  have hlong : ¬ (CStr.lit "--").bytes <+: text.bytes := by
    intro hdashes
    refine hnot ⟨(List.prefix_append [0x2d] [0x2d]).trans hdashes, ?_⟩
    rintro rfl
    exact absurd hdashes (by decide)
  have hend : text ≠ .lit "--" := by
    rintro rfl
    exact hlong List.prefix_rfl
  rw [getoptLong, if_neg hend, if_neg hlong, if_neg hnot]

theorem getoptLong_dash {letters : CStr} {c : UInt8} (hhead : letters.bytes.head? = some c)
    (hc : c ≠ 0x2d) (args : List CStr) : getoptLong none ((.lit "-" ++ letters) :: args) =
      (getoptShort letters.bytes).1 ++ getoptLong (getoptShort letters.bytes).2 args := by
  obtain ⟨bytes, hfree⟩ := letters
  obtain ⟨rest, rfl⟩ : ∃ rest, bytes = c :: rest := List.head?_eq_some_iff.1 hhead
  have hbytes : (CStr.lit "-" ++ ⟨c :: rest, hfree⟩).bytes = 0x2d :: c :: rest := rfl
  have hlong : ¬ (CStr.lit "--").bytes <+: 0x2d :: c :: rest := by
    intro h
    have hsnd := (List.cons_prefix_cons.1 (List.cons_prefix_cons.1 h).2).1
    exact hc hsnd.symm
  have hend : CStr.lit "-" ++ ⟨c :: rest, hfree⟩ ≠ .lit "--" := by
    intro h
    exact hlong (hbytes ▸ h ▸ List.prefix_rfl)
  have hshort : CStr.lit "-" ++ ⟨c :: rest, hfree⟩ ≠ .lit "-" := by
    intro h
    have hlen := congrArg (fun s => s.bytes.length) h
    simp [hbytes, show (CStr.lit "-").bytes.length = 1 from rfl] at hlen
  rw [getoptLong, if_neg hend, hbytes, if_neg hlong,
    if_pos ⟨List.prefix_append [0x2d] (c :: rest), hshort⟩]
  rfl

theorem getoptLong_dashes {name : CStr} (hname : name.bytes ≠ []) (args : List CStr) :
    getoptLong none ((.lit "--" ++ name) :: args) =
      (getoptName name).1 ++ getoptLong (getoptName name).2 args := by
  have hbytes : (CStr.lit "--" ++ name).bytes = 0x2d :: 0x2d :: name.bytes := rfl
  have hend : CStr.lit "--" ++ name ≠ .lit "--" := by
    intro h
    have hlen := congrArg (fun s => s.bytes) h
    rw [hbytes] at hlen
    exact hname (List.cons_inj_right _ |>.1 (List.cons_inj_right _ |>.1 hlen))
  have htail : cstrTail (cstrTail (CStr.lit "--" ++ name)) = name := CStr.ext rfl
  rw [getoptLong, if_neg hend, if_pos (hbytes ▸ List.prefix_append [0x2d, 0x2d] name.bytes), htail]

/-- The letters of flags, one of an option, and what is attached. -/
theorem getoptLong_short {letters : CStr} (hflags : AreFlags letters) {o : LongOption}
    (ho : o ∈ longOptions) (value : CStr) (args : List CStr) :
    getoptLong none ((.lit "-" ++ (letters ++ (o.letter ++ value))) :: args) =
      ((letters.bytes.map fun c => .option c none) ++ (getoptShort (o.val :: value.bytes)).1) ++
        getoptLong (getoptShort (o.val :: value.bytes)).2 args := by
  have hbytes : (letters ++ (o.letter ++ value)).bytes =
      letters.bytes ++ o.val :: value.bytes := by
    rw [CStr.append_bytes, CStr.append_bytes, letter_bytes ho, List.singleton_append]
  have hfirst : ∃ c, (letters ++ (o.letter ++ value)).bytes.head? = some c ∧ c ≠ 0x2d := by
    rw [hbytes]
    cases hletters : letters.bytes with
    | nil => exact ⟨o.val, rfl, (val_ne ho).2⟩
    | cons c bytes =>
      obtain ⟨o, ho, rfl, -⟩ := hflags c (by rw [hletters]; exact List.mem_cons_self)
      exact ⟨o.val, rfl, (val_ne ho).2⟩
  obtain ⟨c, hhead, hc⟩ := hfirst
  rw [getoptLong_dash hhead hc, hbytes, getoptShort_flags hflags]

/-- **An argument is read back** as what it was written for, whatever comes behind it. -/
theorem getoptLong_text {arg : Arg} (h : arg.Valid) (rest : List CStr) :
    getoptLong none (arg.text ++ rest) = arg.options ++ getoptLong none rest := by
  cases arg with
  | word text => exact getoptLong_word h rest
  | flags letters =>
    obtain ⟨hne, hflags⟩ := h
    have hread := getoptShort_flags hflags []
    rw [List.append_nil] at hread
    obtain ⟨c, bytes, hletters⟩ := List.exists_cons_of_ne_nil hne
    obtain ⟨o, ho, rfl, -⟩ := hflags c (by rw [hletters]; exact List.mem_cons_self)
    show getoptLong none ((.lit "-" ++ letters) :: rest) = _
    rw [getoptLong_dash (by rw [hletters]; rfl) (val_ne ho).2, hread]
    show (_ ++ []) ++ getoptLong none rest = _
    rw [List.append_nil]
    rfl
  | short letters o value apart =>
    obtain ⟨hflags, ⟨ho, harg⟩, hvalue⟩ := h
    cases apart with
    | false =>
      show getoptLong none ((.lit "-" ++ (letters ++ (o.letter ++ value))) :: rest) = _
      rw [getoptLong_short hflags ho, getoptShort_arg ho harg, if_neg (hvalue rfl)]
      show (_ ++ [_]) ++ getoptLong none rest = _
      rfl
    | true =>
      have hbare : letters ++ o.letter = letters ++ (o.letter ++ cstr []) :=
        CStr.ext (congrArg (letters.bytes ++ ·) (List.append_nil _).symm)
      show getoptLong none ((.lit "-" ++ (letters ++ o.letter)) :: value :: rest) = _
      rw [hbare, getoptLong_short hflags ho, getoptShort_arg ho harg,
        if_pos (show (cstr []).bytes = [] from rfl), List.append_nil]
      show _ ++ .option o.val (some value) :: getoptLong none rest = _
      exact (List.append_assoc _ [_] _).symm
  | longFlag name o =>
    obtain ⟨hfind, hflag⟩ := h
    show getoptLong none ((.lit "--" ++ name) :: rest) = _
    rw [getoptLong_dashes (abbreviation hfind).2, getoptName_flag hfind, hflag]
    rfl
  | long name o value apart =>
    obtain ⟨hfind, harg⟩ := h
    obtain ⟨-, hne⟩ := abbreviation hfind
    cases apart with
    | false =>
      have hbytes : (name ++ (.lit "=" ++ value)).bytes ≠ [] :=
        List.append_ne_nil_of_left_ne_nil hne _
      show getoptLong none ((.lit "--" ++ (name ++ (.lit "=" ++ value))) :: rest) = _
      rw [getoptLong_dashes hbytes, getoptName_value hfind harg]
      rfl
    | true =>
      show getoptLong none ((.lit "--" ++ name) :: value :: rest) = _
      rw [getoptLong_dashes hne, getoptName_flag hfind, harg]
      rfl

theorem getoptLong_line {args : List Arg} (h : ∀ arg ∈ args, arg.Valid) (rest : List CStr) :
    getoptLong none (args.flatMap Arg.text ++ rest) =
      args.flatMap Arg.options ++ getoptLong none rest := by
  induction args with
  | nil => rfl
  | cons arg args ih =>
    obtain ⟨hhead, htail⟩ := List.forall_mem_cons.1 h
    rw [List.flatMap_cons, List.append_assoc, getoptLong_text hhead, ih htail, List.flatMap_cons,
      List.append_assoc]

/-- Behind the options there is nothing, or `--` and then whatever. -/
theorem getoptLong_end {rest : List CStr} (h : ∀ arg ∈ rest.head?, arg = .lit "--") :
    getoptLong none rest = [] := by
  cases rest with
  | nil => rfl
  | cons arg rest => rw [getoptLong, if_pos (h arg rfl)]

/-! ## What the options set -/

def Getopt.has (c : UInt8) : Getopt → Bool
  | .option opt _ => opt = c
  | .unknown => false

def Getopt.argOf (c : UInt8) : Getopt → Option CStr
  | .option opt optarg => if opt = c then optarg else none
  | .unknown => none

def given (c : UInt8) (opts : List Getopt) : Bool := opts.any (Getopt.has c)

/-- The argument that an option has the last time it is given. -/
def lastArg (c : UInt8) (opts : List Getopt) : Option CStr :=
  (opts.filterMap (Getopt.argOf c)).getLast?

/-- A configuration with the options over it. -/
def Config.withOptions (cfg : Config) (opts : List Getopt) : Config :=
  { cfg with
    intervalSec := (lastArg 0x69 opts).elim cfg.intervalSec fun arg => atoi arg.bytes
    foreground := cfg.foreground || given 0x66 opts
    socketPath := (lastArg 0x73 opts).elim cfg.socketPath cfg.socketPath.strncpy
    logLevel := if given 0x64 opts then .debug else cfg.logLevel
    webPort := (lastArg 0x70 opts).elim cfg.webPort fun arg => atoi arg.bytes }

/-- One of the options, with an argument if it takes one. -/
def Getopt.Formed (opt : Getopt) : Prop :=
  ∃ o ∈ longOptions, ∃ optarg : Option CStr, opt = .option o.val optarg ∧ optarg.isSome = o.hasArg

theorem formed_flags {letters : CStr} (hflags : AreFlags letters) :
    ∀ opt ∈ letters.bytes.map fun c => Getopt.option c none, opt.Formed := by
  intro opt hopt
  obtain ⟨c, hc, rfl⟩ := List.mem_map.1 hopt
  obtain ⟨o, ho, rfl, hflag⟩ := hflags c hc
  exact ⟨o, ho, none, rfl, hflag.symm⟩

theorem formed_options {arg : Arg} (h : arg.Valid) : ∀ opt ∈ arg.options, opt.Formed := by
  cases arg with
  | word text => exact fun opt hopt => absurd hopt List.not_mem_nil
  | flags letters => exact formed_flags h.2
  | short letters o value apart =>
    obtain ⟨hflags, ⟨ho, harg⟩, -⟩ := h
    intro opt hopt
    rcases List.mem_append.1 hopt with hopt | hopt
    · exact formed_flags hflags opt hopt
    · rw [List.mem_singleton.1 hopt]
      exact ⟨o, ho, some value, rfl, harg.symm⟩
  | longFlag name o =>
    intro opt hopt
    rw [List.mem_singleton.1 hopt]
    exact ⟨o, (findLong_some h.1).1, none, rfl, h.2.symm⟩
  | long name o value apart =>
    intro opt hopt
    rw [List.mem_singleton.1 hopt]
    exact ⟨o, (findLong_some h.1).1, some value, rfl, h.2.symm⟩

theorem lastArg_concat (c : UInt8) (opts : List Getopt) (opt : Getopt) :
    lastArg c (opts ++ [opt]) = (opt.argOf c).or (lastArg c opts) := by
  rw [lastArg, List.filterMap_append, List.getLast?_append, List.filterMap_cons]
  cases opt.argOf c <;> rfl

theorem given_concat (c : UInt8) (opts : List Getopt) (opt : Getopt) :
    given c (opts ++ [opt]) = (given c opts || opt.has c) := by
  rw [given, List.any_append, List.any_cons, List.any_nil, Bool.or_false]
  rfl

/-- Nothing is left of what was copied before. -/
theorem strncpy_strncpy {n : Nat} (field field' : CharArray n) (src : CStr) :
    field.strncpy src = field'.strncpy src := by
  simp only [CharArray.strncpy, memcpy_padded]

/-- **One more option** is over the ones before. -/
theorem configOption_withOptions {opt : Getopt} (hopt : opt.Formed) (hhelp : opt.has 0x68 = false)
    (cfg : Config) (opts : List Getopt) :
    configOption (cfg.withOptions opts) opt = .ok (cfg.withOptions (opts ++ [opt])) := by
  obtain ⟨o, ho, optarg, rfl, harg⟩ := hopt
  simp only [longOptions, List.mem_cons, List.not_mem_nil, or_false] at ho
  simp only [Config.withOptions, lastArg_concat, given_concat]
  rcases ho with rfl | rfl | rfl | rfl | rfl | rfl | rfl
  all_goals cases optarg
  all_goals simp [Getopt.has, Getopt.argOf, configOption] at harg hhelp ⊢
  cases lastArg 0x73 opts with
  | none => rfl
  | some path => exact strncpy_strncpy _ _ _

theorem foldlM_configOption {opts : List Getopt} (hopts : ∀ opt ∈ opts, opt.Formed)
    (hhelp : given 0x68 opts = false) (cfg : Config) :
    opts.foldlM configOption cfg = .ok (cfg.withOptions opts) := by
  induction opts using List.reverseRecOn with
  | nil => simp [Config.withOptions, lastArg, given, pure, Except.pure]
  | append_singleton opts opt ih =>
    rw [given_concat, Bool.or_eq_false_iff] at hhelp
    have hfront : ∀ opt ∈ opts, opt.Formed := fun opt hopt => hopts opt (by simp [hopt])
    rw [List.foldlM_append, ih hfront hhelp.1]
    show (List.foldlM configOption _ [opt] : Except ParseStop Config) = _
    rw [List.foldlM_cons, configOption_withOptions (hopts opt (by simp)) hhelp.2]
    rfl

/-- With `--help` among them the options before it are of no use. -/
theorem foldlM_help {opts : List Getopt} (hopts : ∀ opt ∈ opts, opt.Formed)
    (hhelp : given 0x68 opts = true) (cfg : Config) :
    opts.foldlM configOption cfg = .error .exited := by
  induction opts generalizing cfg with
  | nil => cases hhelp
  | cons opt opts ih =>
    obtain ⟨hopt, hopts⟩ := List.forall_mem_cons.1 hopts
    rw [List.foldlM_cons]
    by_cases hthis : opt.has 0x68 = true
    · obtain ⟨o, -, optarg, rfl, -⟩ := hopt
      have hval : o.val = 0x68 := by simpa [Getopt.has] using hthis
      rw [hval]
      rfl
    · have hthis : opt.has 0x68 = false := by simpa using hthis
      have hrest : given 0x68 opts = true := by simpa [given, hthis] using hhelp
      have hstep := configOption_withOptions hopt hthis cfg []
      have hnone : cfg.withOptions [] = cfg := by simp [Config.withOptions, lastArg, given]
      rw [hnone] at hstep
      rw [hstep]
      exact ih hopts hrest _

/-- The last `-c` is the file. -/
theorem configPath_eq {opts : List Getopt} (hopts : ∀ opt ∈ opts, opt.Formed) :
    configPath opts = lastArg 0x63 opts := by
  induction opts using List.reverseRecOn with
  | nil => rfl
  | append_singleton opts opt ih =>
    have hfront : ∀ opt ∈ opts, opt.Formed := fun opt hopt => hopts opt (by simp [hopt])
    rw [lastArg_concat, ← ih hfront, configPath, List.foldl_append, ← configPath]
    obtain ⟨o, ho, optarg, rfl, harg⟩ := hopts opt (by simp)
    simp only [longOptions, List.mem_cons, List.not_mem_nil, or_false] at ho
    rcases ho with rfl | rfl | rfl | rfl | rfl | rfl | rfl
    all_goals cases optarg
    all_goals cases harg
    all_goals rfl

/-- A file that is not given is one that cannot be opened. -/
theorem configParseArgs_eq (files : CStr → Option Bytes) (cfg : Config) (args : List CStr) :
    configParseArgs files cfg args =
      (getoptLong none args).foldlM configOption (configLoad cfg (fileGiven files args)) := by
  rw [configParseArgs, fileGiven]
  cases configPath (getoptLong none args) <;> rfl

/-- **The command line is obeyed**, however it is typed: help is help, and otherwise each setting
is what the last option for it says, or else the file that the last `-c` names, or else what it
was. -/
theorem command_line_obeyed (files : CStr → Option Bytes) (cfg : Config) {args : List Arg}
    (hargs : ∀ arg ∈ args, arg.Valid) {rest : List CStr}
    (hrest : ∀ arg ∈ rest.head?, arg = .lit "--") :
    let opts := args.flatMap Arg.options
    configParseArgs files cfg (args.flatMap Arg.text ++ rest) =
      if given 0x68 opts then .error .exited
      else .ok ((configLoad cfg ((lastArg 0x63 opts).bind files)).withOptions opts) := by
  intro opts
  have hopts : ∀ opt ∈ opts, opt.Formed := by
    intro opt hopt
    obtain ⟨arg, harg, hopt⟩ := List.mem_flatMap.1 hopt
    exact formed_options (hargs arg harg) opt hopt
  have hread : getoptLong none (args.flatMap Arg.text ++ rest) = opts := by
    rw [getoptLong_line hargs, getoptLong_end hrest, List.append_nil]
  rw [configParseArgs_eq, fileGiven, hread, configPath_eq hopts]
  by_cases hhelp : given 0x68 opts = true
  · rw [if_pos hhelp, foldlM_help hopts hhelp]
  · rw [if_neg hhelp, foldlM_configOption hopts (by simpa using hhelp)]

/-- `-fc qmem.conf here --int=5 -di 7 --po 80 -- -i 9`. -/
def typed : List Arg := [
  .short (.lit "f") ⟨.lit "config", true, 0x63⟩ (.lit "qmem.conf") true,
  .word (.lit "here"),
  .long (.lit "int") ⟨.lit "interval", true, 0x69⟩ (.lit "5") false,
  .short (.lit "d") ⟨.lit "interval", true, 0x69⟩ (.lit "7") true,
  .long (.lit "po") ⟨.lit "port", true, 0x70⟩ (.lit "80") true]

theorem typed_valid : ∀ arg ∈ typed, arg.Valid := by
  simp only [typed, List.forall_mem_cons]
  refine ⟨⟨?_, ⟨by simp [longOptions], rfl⟩, by simp⟩, Or.inr (by decide), ⟨rfl, rfl⟩,
    ⟨?_, ⟨by simp [longOptions], rfl⟩, by simp⟩, ⟨rfl, rfl⟩, fun arg h => absurd h List.not_mem_nil⟩
  · intro c hc
    rw [List.mem_singleton.1 hc]
    exact ⟨⟨.lit "foreground", false, 0x66⟩, by simp [longOptions], rfl, rfl⟩
  · intro c hc
    rw [List.mem_singleton.1 hc]
    exact ⟨⟨.lit "debug", false, 0x64⟩, by simp [longOptions], rfl, rfl⟩

theorem command_line_obeyed_typed :
    configParseArgs (oneFile "[daemon]\ninterval = 3\n[web]\nport = 90\nenabled = no\n")
      configInitDefaults [.lit "-fc", .lit "qmem.conf", .lit "here", .lit "--int=5", .lit "-di",
        .lit "7", .lit "--po", .lit "80", .lit "--", .lit "-i", .lit "9"] =
      .ok { configInitDefaults with
        intervalSec := 7
        foreground := true
        logLevel := .debug
        webEnabled := false
        webPort := 80 } :=
  command_line_obeyed (oneFile "[daemon]\ninterval = 3\n[web]\nport = 90\nenabled = no\n")
    configInitDefaults typed_valid
    (show ∀ arg ∈ [CStr.lit "--", .lit "-i", .lit "9"].head?, arg = .lit "--" by simp)

end Qmem
