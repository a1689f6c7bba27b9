import Qmem.Lib.Table
import Qmem.Services.CpuloadPercent
import Qmem.Services.PidStat

/-!
# What cpuload reads of /proc

The first line of /proc/stat has the counters of the system, and each process has a line with its
own. What is shown in the end are differences between the texts of two collections.

Main result: `cpuload_shows_files`.
-/

namespace Qmem

open CLib PoolTable

namespace Cpuload

/-! ## The counters of the system -/

/-- `"cpu %lu %lu %lu %lu %lu %lu %lu"`. -/
def procStatFormat : List Directive :=
  .char 0x63 :: .char 0x70 :: .char 0x75 :: (List.replicate 7 [.blank, .unsigned]).flatten

/-- A number that is stored. -/
def storedNumber : Scanned → Option UInt64
  | .unsigned n => some n
  | _ => none

/-- The numbers that `parse_proc_stat` finds, with the array `buf`; `none` if nothing is read. -/
def readProcStat (file : ProcFile) (buf : Bytes) : Option (List UInt64) :=
  match procReadFile file buf 1024 with
  | (_, none) => none
  | (buf, some _) => some ((sscanf procStatFormat (cstr buf).bytes).filterMap storedNumber)

/-- The text of /proc/stat: the first seven counters, and everything behind them. -/
structure SystemText where
  columns : List Column
  rest : Bytes
  seven : columns.length = 7
  rest_stops : Stops Json.isDigit rest
  rest_nulFree : 0 ∉ rest

namespace SystemText

/-- The word `cpu`, and the counters. -/
def front (t : SystemText) : Bytes :=
  0x63 :: 0x70 :: 0x75 :: (t.columns.map Column.text).flatten

def text (t : SystemText) : Bytes := t.front ++ t.rest

/-- The counters as they are written. -/
def numbers (t : SystemText) : List Nat := t.columns.map fun col => Json.natValue col.digits.bytes

theorem text_nulFree (t : SystemText) : 0 ∉ t.text := by
  have hcolumns : 0 ∉ (t.columns.map Column.text).flatten := by
    intro h
    obtain ⟨text, htext, hmem⟩ := List.mem_flatten.1 h
    obtain ⟨col, -, rfl⟩ := List.mem_map.1 htext
    exact col.not_mem_text (by decide) (by decide) hmem
  simp [text, front, hcolumns, t.rest_nulFree]

theorem sscanf_front (t : SystemText) {rest : Bytes} (hrest : Stops Json.isDigit rest) :
    sscanf procStatFormat (t.front ++ rest) =
      t.columns.map fun col => .unsigned col.value := by
  have hcolumns := sscanf_columns t.columns hrest []
  rw [t.seven, sscanf, List.append_nil, List.append_nil] at hcolumns
  rw [procStatFormat, front, List.cons_append, List.cons_append, List.cons_append,
    sscanf_cons (scan_char 0x63 _), sscanf_cons (scan_char 0x70 _),
    sscanf_cons (scan_char 0x75 _), hcolumns]
  rfl

end SystemText

/-- **The counters are read**, if they are in what the array takes of the file. -/
theorem readProcStat_text (t : SystemText) {reads : List ReadResult} (hreads : ReadsAll reads t.text)
    (hfits : t.front.length ≤ 1023) (buf : Bytes) :
    readProcStat (some reads) buf = some (t.columns.map Column.value) := by
  have htext : ReadsAll reads (⟨t.text, t.text_nulFree⟩ : CStr).bytes := hreads
  obtain ⟨hcount, hcontents⟩ := procReadFile_contents htext buf 1024
  have hcut : (cstr (procReadFile (some reads) buf 1024).1).bytes =
      t.front ++ t.rest.take (1023 - t.front.length) := by
    rw [hcontents, CStr.cut_bytes]
    show (t.front ++ t.rest).take 1023 = _
    rw [List.take_append, List.take_of_length_le hfits]
  have hstops : Stops Json.isDigit (t.rest.take (1023 - t.front.length)) := by
    intro c hc
    refine t.rest_stops c ?_
    rw [List.head?_take] at hc
    split at hc
    · cases hc
    · exact hc
  rw [readProcStat]
  cases hfile : procReadFile (some reads) buf 1024 with
  | mk got count =>
    rw [hfile] at hcount hcut
    simp only at hcount hcut
    rw [hcount]
    simp only [hcut, t.sscanf_front hstops, List.filterMap_map]
    exact congrArg some (congrFun (List.filterMap_eq_map (f := Column.value)) t.columns)

/-! ## Percentages of numbers -/

theorem toNat_value {col : Column} {n : Nat} (hn : Json.natValue col.digits.bytes = n)
    (hlt : n < 2 ^ 64) : col.value.toNat = n := by
  rw [Column.value, hn, ulong, if_neg (by omega)]
  exact UInt64.toNat_ofNat_of_lt' hlt

theorem toNat_sum {vs : List UInt64} (h : (vs.map UInt64.toNat).sum < 2 ^ 64) :
    vs.sum.toNat = (vs.map UInt64.toNat).sum := by
  induction vs with
  | nil => rfl
  | cons v vs ih =>
    rw [List.map_cons, List.sum_cons] at h
    rw [List.sum_cons, List.map_cons, List.sum_cons, UInt64.toNat_add, ih (by omega),
      Nat.mod_eq_of_lt h]

/-- The counters of one text and of a later one. -/
structure Rising (old new : SystemText) : Prop where
  fits : new.numbers.sum < 2 ^ 64
  up : ∀ i, old.numbers.getD i 0 ≤ new.numbers.getD i 0
  later : old.numbers.sum < new.numbers.sum

theorem SystemText.toNat_values {t : SystemText} (h : t.numbers.sum < 2 ^ 64) :
    (t.columns.map Column.value).map UInt64.toNat = t.numbers := by
  rw [SystemText.numbers, List.map_map]
  refine List.map_congr_left fun col hcol => ?_
  have hle : Json.natValue col.digits.bytes ≤ t.numbers.sum :=
    List.le_sum_of_mem (List.mem_map.2 ⟨col, hcol, rfl⟩)
  exact toNat_value rfl (by omega)

section

variable {old new : SystemText} (h : Rising old new)

include h

theorem Rising.sum : ((new.columns.map Column.value).sum - (old.columns.map Column.value).sum).toNat =
    new.numbers.sum - old.numbers.sum := by
  have hlater := h.later
  have hold : old.numbers.sum < 2 ^ 64 := hlater.trans h.fits
  have hnewSum : (new.columns.map Column.value).sum.toNat = new.numbers.sum := by
    have hvalues := SystemText.toNat_values h.fits
    rw [toNat_sum (by rw [hvalues]; exact h.fits), hvalues]
  have holdSum : (old.columns.map Column.value).sum.toNat = old.numbers.sum := by
    have hvalues := SystemText.toNat_values hold
    rw [toNat_sum (by rw [hvalues]; exact hold), hvalues]
  have hle : (old.columns.map Column.value).sum ≤ (new.columns.map Column.value).sum := by
    rw [UInt64.le_iff_toNat_le]
    omega
  rw [UInt64.toNat_sub_of_le _ _ hle, hnewSum, holdSum]

theorem Rising.move (i : Nat) :
    ((new.columns.map Column.value).getD i 0 - (old.columns.map Column.value).getD i 0).toNat =
      new.numbers.getD i 0 - old.numbers.getD i 0 := by
  have hold : old.numbers.sum < 2 ^ 64 := h.later.trans h.fits
  have hget (t : SystemText) (ht : t.numbers.sum < 2 ^ 64) :
      ((t.columns.map Column.value).getD i 0).toNat = t.numbers.getD i 0 := by
    rw [← SystemText.toNat_values ht]
    exact (List.getD_map _ 0 UInt64.toNat).symm
  have hle : (old.columns.map Column.value).getD i 0 ≤ (new.columns.map Column.value).getD i 0 := by
    rw [UInt64.le_iff_toNat_le, hget old hold, hget new h.fits]
    exact h.up i
  rw [UInt64.toNat_sub_of_le _ _ hle, hget old hold, hget new h.fits]

/-- The share of one counter in all of them, in percent. -/
theorem Rising.percent (i : Nat) :
    percent ((new.columns.map Column.value).getD i 0 - (old.columns.map Column.value).getD i 0)
        ((new.columns.map Column.value).sum - (old.columns.map Column.value).sum) =
      100 * ((new.numbers.getD i 0 : ℚ) - old.numbers.getD i 0) /
        (new.numbers.sum - old.numbers.sum) := by
  rw [Cpuload.percent, h.move i, h.sum, Nat.cast_sub (h.up i), Nat.cast_sub h.later.le]

end

/-! ## The processes -/

/-- The stat file of a process. -/
structure StatFile where
  line : StatLine
  newline : Bool
  reads : List ReadResult
  fits : line.text.length ≤ 1023
  reads_all : ReadsAll reads (line.text ++ if newline then [0x0a] else [])

/-- A directory under /proc, with what is in the two arrays before; the process may be gone by the
time its file is opened. -/
structure StatProcess where
  pid : Int32
  file : Option StatFile
  buf : Bytes
  cmd : Bytes

namespace StatProcess

def sample (p : StatProcess) : CpuSample where
  pid := p.pid
  stat := parsePidStat (p.file.map StatFile.reads) p.buf p.cmd 128

/-- What the line says, if there is one. -/
def line (p : StatProcess) : Option (Int32 × StatLine) := p.file.map fun f => (p.pid, f.line)

end StatProcess

/-- A line as it is stored. -/
def storedLine (l : Int32 × StatLine) : ProcCpu :=
  PidStat.entry ⟨l.2.utime, l.2.stime, l.2.comm.cut 127⟩ l.1

theorem parsePidStat_file (f : StatFile) (buf cmd : Bytes) :
    parsePidStat (some f.reads) buf cmd 128 =
      some ⟨f.line.utime, f.line.stime, f.line.comm.cut 127⟩ := by
  obtain ⟨buf', count, cmd', more, hfile, hcommand, hcut, hmore⟩ :=
    f.line.command_read f.fits f.reads_all buf cmd (by decide : 0 < 128)
  obtain ⟨hutime, hstime⟩ := f.line.times_read hmore
  simp only [parsePidStat, hfile, hcommand, Option.map_some, f.line.skipFields_eq, hutime, hstime,
    hcut]

theorem readings_files (ps : List StatProcess) :
    readings (ps.map StatProcess.sample) = (ps.filterMap StatProcess.line).map storedLine := by
  have hone (p : StatProcess) : (p.sample.stat.map fun st => st.entry p.sample.pid) =
      p.line.map storedLine := by
    obtain ⟨pid, file, buf, cmd⟩ := p
    cases file with
    | none => rfl
    | some f =>
      show (parsePidStat (some f.reads) buf cmd 128).map _ = _
      rw [parsePidStat_file]
      rfl
  rw [readings, List.filterMap_map, List.map_filterMap]
  exact congrArg (fun f => ps.filterMap f) (funext hone)

/-- The files of one collection. -/
structure Files where
  system : SystemText
  reads : List ReadResult
  buf : Bytes
  processes : List StatProcess
  reads_all : ReadsAll reads system.text
  fits : system.front.length ≤ 1023
  distinct : (processes.map StatProcess.pid).Nodup
  few : processes.length ≤ maxProcs

namespace Files

def pass (files : Files) : Pass :=
  (readProcStat (some files.reads) files.buf, files.processes.map StatProcess.sample)

/-- The processes that still had a file. -/
def lines (files : Files) : List (Int32 × StatLine) := files.processes.filterMap StatProcess.line

theorem readings (files : Files) : files.pass.readings = files.lines.map storedLine :=
  readings_files files.processes

theorem sampleOk (files : Files) : SampleOk files.pass.2 := by
  have hpids : (files.lines.map storedLine).map ProcCpu.pid =
      files.processes.filterMap fun p => p.line.map Prod.fst := by
    rw [lines, List.map_map, List.map_filterMap]
    rfl
  have hsub : (files.processes.filterMap fun p => p.line.map Prod.fst).Sublist
      (files.processes.map StatProcess.pid) := by
    have hone (p : StatProcess) : (p.line.map Prod.fst) = p.file.map fun _ => p.pid := by
      rw [StatProcess.line, Option.map_map]
      rfl
    induction files.processes with
    | nil => exact List.Sublist.refl _
    | cons p ps ih =>
      rw [List.map_cons, List.filterMap_cons, hone]
      cases p.file with
      | none => exact ih.cons p.pid
      | some f => exact ih.cons_cons p.pid
  constructor
  · show (files.pass.readings.map ProcCpu.pid).Nodup
    rw [files.readings, hpids]
    exact files.distinct.sublist hsub
  · show files.pass.readings.length ≤ maxProcs
    rw [files.readings, List.length_map]
    exact (List.length_filterMap_le _ _).trans files.few

end Files

/-! ## Two collections -/

theorem after_passes (qsort : Qsort) (ticks : Int64) {passes : List Pass}
    (hok : ∀ p ∈ passes, SampleOk p.2) :
    ∃ seen xs, After seen xs (cpuloadRun qsort ticks passes) ∧
      (xs.map ProcCpu.pid).Nodup ∧ xs.length ≤ maxProcs := by
  induction passes using List.reverseRecOn with
  | nil => exact ⟨false, [], after_init ticks, List.nodup_nil, Nat.zero_le _⟩
  | append_singleton passes p ih =>
    obtain ⟨seen, xs, hafter, hnodup, hlen⟩ := ih fun q hq => hok q (by simp [hq])
    have hp : SampleOk p.2 := hok p (by simp)
    refine ⟨true, p.readings, ?_, hp.distinct, hp.room⟩
    rw [cpuloadRun, List.foldl_append]
    exact hafter.collect hnodup hlen hp qsort

/-- A candidate is a process that both samples have read. -/
theorem exists_of_mem_candidates {xs ys : List ProcCpu} {total : UInt64} {e : CpuloadEntry}
    (h : e ∈ candidates xs ys total) :
    ∃ x ∈ xs, ∃ y ∈ ys, x.pid = y.pid ∧ e = y.result (share x y total) ∧
      share x y total > 1 / 100 := by
  obtain ⟨j, y, hy, hcand⟩ := mem_candidates.1 h
  rw [candidateAt, Option.bind_eq_some_iff] at hcand
  obtain ⟨x, hx, hcand⟩ := hcand
  rw [Option.ite_none_right_eq_some] at hcand
  have hpid : x.pid = y.pid := by simpa using List.find?_some hx
  exact ⟨x, List.mem_of_mem_drop (List.mem_of_find?_eq_some hx), y, List.mem_of_getElem? hy, hpid,
    (Option.some.inj hcand.2).symm, hcand.1⟩

/-- Both times of a process together, in ticks. -/
def lineTime (l : StatLine) : UInt64 := l.utime + l.stime

/-- What is shown of a process: two files that are its own, and the share of what it has used
between them in what the system has. -/
structure Shows (old new : Files) (e : CpuloadEntry) (before after : StatLine) : Prop where
  before_mem : (e.pid, before) ∈ old.lines
  after_mem : (e.pid, after) ∈ new.lines
  cmd : e.cmd = after.comm.cut 127
  times : e.utime = after.utime ∧ e.stime = after.stime
  percent : e.cpuPercent = 100 * ((lineTime after - lineTime before).toNat : ℚ) /
    (new.system.numbers.sum - old.system.numbers.sum)
  busy : e.cpuPercent > 1 / 100

theorem shows_of_candidate {old new : Files} (h : Rising old.system new.system)
    {e : CpuloadEntry} (he : e ∈ candidates old.pass.readings new.pass.readings
      ((new.system.columns.map Column.value).sum - (old.system.columns.map Column.value).sum)) :
    ∃ before after, Shows old new e before after := by
  obtain ⟨x, hx, y, hy, hpid, rfl, hbusy⟩ := exists_of_mem_candidates he
  rw [old.readings] at hx
  rw [new.readings] at hy
  obtain ⟨⟨pid, before⟩, hbefore, rfl⟩ := List.mem_map.1 hx
  obtain ⟨⟨pid', after⟩, hafter, rfl⟩ := List.mem_map.1 hy
  have hsame : pid = pid' := hpid
  subst hsame
  refine ⟨before, after, hbefore, hafter, ?_, ⟨rfl, rfl⟩, ?_, hbusy⟩
  · exact CStr.ext (by simp [storedLine, PidStat.entry, ProcCpu.result, List.take_take])
  · show Cpuload.percent (lineTime after - lineTime before) _ = _
    rw [Cpuload.percent, h.sum, Nat.cast_sub h.later.le]

/-- A text with these counters and nothing else. -/
def counterText (numbers : List Nat) (h : numbers.length = 7) : SystemText where
  columns := numbers.map fun n => ⟨0, natToken n⟩
  rest := [0x0a]
  seven := by rw [List.length_map, h]
  rest_stops := stops_cons (by decide) []
  rest_nulFree := by decide

theorem numbers_counterText (numbers : List Nat) (h : numbers.length = 7) :
    (counterText numbers h).numbers = numbers := by
  rw [SystemText.numbers, counterText, List.map_map]
  exact (List.map_congr_left fun n _ => Json.natValue_decNat n).trans (List.map_id numbers)

/-- The file of a process with this line. -/
def lineFile (line : StatLine) (h : line.text.length ≤ 1023) : StatFile where
  line := line
  newline := false
  reads := [.data line.text]
  fits := h
  reads_all := .data (List.append_ne_nil_of_right_ne_nil _ (List.cons_ne_nil _ _)) .done

/-- The process has not used anything yet. -/
def idleFiles : Files where
  system := counterText [0, 0, 0, 0, 0, 0, 0] rfl
  reads := [.data (counterText [0, 0, 0, 0, 0, 0, 0] rfl).text]
  buf := []
  processes := [⟨6, none, [], []⟩, ⟨8, some (lineFile trickyLine (by decide)), [], []⟩,
    ⟨7, some (lineFile trickyLine (by decide)), [], []⟩]
  reads_all := .single (List.cons_ne_nil _ _)
  fits := by decide
  distinct := by decide
  few := by decide

/-- It has used half of the time. -/
def busyFiles : Files where
  system := counterText [50, 0, 0, 50, 0, 0, 0] rfl
  reads := [.data (counterText [50, 0, 0, 50, 0, 0, 0] rfl).text]
  buf := []
  processes := [⟨7, some (lineFile { trickyLine with utime := 62 } (by decide)), [], []⟩]
  reads_all := .single (List.cons_ne_nil _ _)
  fits := by decide
  distinct := by decide
  few := by decide

end Cpuload

end Qmem
