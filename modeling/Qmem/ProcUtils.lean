import Qmem.Lib.Lines
import Qmem.Lib.Scan
import Qmem.Lib.Strto

/-!
# Reading /proc files (`common/proc_utils.c`)

A file is the list of what its `read` calls return, or nothing when it cannot be opened. A buffer
keeps whatever a failed read left in it, and the callers below do not always look at the result.
-/

namespace Qmem

open CLib

/-- What one `read` returns: bytes (as many as were asked for at most), `EINTR`, another error.
A list of these that has come to its end stands for the end of the file. -/
inductive ReadResult where
  | data (bs : Bytes)
  | eintr
  | error

/-- A file under /proc; `none` if `open` fails. -/
abbrev ProcFile := Option (List ReadResult)

/-- The loop of `proc_read_file`. The result is `none` for -1. -/
def procReadLoop (size : Nat) : List ReadResult → Bytes → Nat → Bytes × Option Nat
  | [], buf, total => (memcpy buf total [0], some total)
  | r :: rs, buf, total =>
    if total < size - 1 then
      match r with
      | .eintr => procReadLoop size rs buf total
      | .error => (buf, none)
      | .data bs =>
        let bs := bs.take (size - 1 - total)
        if bs.length = 0 then (memcpy buf total [0], some total)
        else procReadLoop size rs (memcpy buf total bs) (total + bs.length)
    else (memcpy buf total [0], some total)

/-- `proc_read_file`, on the buffer `buf` of `size` bytes. -/
def procReadFile (file : ProcFile) (buf : Bytes) (size : Nat) : Bytes × Option Nat :=
  match file with
  | none => (buf, none)
  | some reads => procReadLoop size reads buf 0

/-- The loop of `proc_read_status_kb`, over what `line` points at; -1 if no line is the field's. -/
def statusLoop (field : CStr) : List Bytes → Int64
  | [] => -1
  | line :: lines =>
    if field.bytes ++ [0x3a] <+: line then
      strtoll ((line.drop (field.length + 1)).dropWhile isspace)
    else statusLoop field lines

/-- `proc_read_status_kb`, with the array `buf`. -/
def procReadStatusKb (status : ProcFile) (buf : Bytes) (field : CStr) : Int64 :=
  match procReadFile status buf 4096 with
  | (_, none) => -1
  | (buf, some _) => statusLoop field (lineStarts (cstr buf).bytes)

/-- `while (n > 0 && p(buf[n-1])) buf[--n] = '\0';` -/
def trimTrailing (p : UInt8 → Bool) (buf : Bytes) : Nat → Bytes × Nat
  | 0 => (buf, 0)
  | n + 1 => if p (buf.getD n 0) then trimTrailing p (buf.set n 0) n else (buf, n + 1)

/-- `proc_read_cmdline`: the arguments with spaces between them. -/
def procReadCmdline (cmdline : ProcFile) (buf : Bytes) (size : Nat) : Bytes × Option Nat :=
  match procReadFile cmdline buf size with
  | (buf, none) => (buf, none)
  | (buf, some n) =>
    let buf := (buf.take (n - 1)).map (fun c => if c = 0 then 0x20 else c) ++ buf.drop (n - 1)
    let (buf, n) := trimTrailing isspace buf n
    (buf, some n)

/-- `proc_read_comm`: the name without its newline. -/
def procReadComm (comm : ProcFile) (buf : Bytes) (size : Nat) : Bytes × Option Nat :=
  match procReadFile comm buf size with
  | (buf, none) => (buf, none)
  | (buf, some n) =>
    let (buf, n) := trimTrailing (fun c => c == 0x0a || c == 0x0d) buf n
    (buf, some n)

/-- `proc_parse_kv_kb`, into a key buffer of `keySize` bytes: the key and the number behind the
first colon, which may be on a later line; `none` for -1 without a key. -/
def procParseKvKb (line : Bytes) (keySize : Nat) : Option (Bytes × Int64) :=
  (strchr line 0x3a).map fun colon =>
    let key := (line.take (line.length - colon.length)).take (keySize - 1)
    let key := (key.reverse.dropWhile isspace).reverse.dropWhile isspace
    (key, strtoll ((colon.drop 1).dropWhile isspace))

/-! ## Going through the processes -/

/-- The loop of `proc_iterate_pids` over the entries of /proc that are pids: it stops when the
callback returns false, and counts the calls. -/
def iteratePids {σ α : Type} (callback : σ → α → σ × Bool) : List α → σ → Nat → σ × Nat
  | [], s, count => (s, count)
  | p :: ps, s, count =>
    match callback s p with
    | (s, true) => iteratePids callback ps s (count + 1)
    | (s, false) => (s, count + 1)

section

variable {σ α : Type} {callback : σ → α → σ × Bool} {s : σ} {p : α}

theorem iteratePids_go (h : (callback s p).2 = true) (ps : List α) (count : Nat) :
    iteratePids callback (p :: ps) s count =
      iteratePids callback ps (callback s p).1 (count + 1) := by
  rw [iteratePids]
  split
  · case h_1 next hs => rw [hs]
  · case h_2 next hs =>
    rw [hs] at h
    exact absurd h Bool.false_ne_true

theorem iteratePids_stop (h : (callback s p).2 = false) (ps : List α) (count : Nat) :
    iteratePids callback (p :: ps) s count = ((callback s p).1, count + 1) := by
  rw [iteratePids]
  split
  · case h_1 next hs =>
    rw [hs] at h
    exact absurd h.symm Bool.false_ne_true
  · case h_2 next hs => rw [hs]

/-- What the callback keeps, the loop keeps, wherever it stops. -/
theorem iteratePids_keeps {I : σ → Prop} (hstep : ∀ s p, I s → I (callback s p).1) (h : I s)
    (ps : List α) (count : Nat) : I (iteratePids callback ps s count).1 := by
  induction ps generalizing s count with
  | nil => exact h
  | cons p ps ih =>
    have hnext : I (callback s p).1 := hstep s p h
    cases hgo : (callback s p).2 with
    | true =>
      rw [iteratePids_go hgo]
      exact ih hnext (count + 1)
    | false =>
      rw [iteratePids_stop hgo]
      exact hnext

end

/-- `proc_iterate_pids`; the directory is `none` when `opendir` fails, the count `none` for -1. -/
def procIteratePids {σ α : Type} (callback : σ → α → σ × Bool) (dir : Option (List α)) (s : σ) :
    σ × Option Nat :=
  match dir with
  | none => (s, none)
  | some ps =>
    let (s, count) := iteratePids callback ps s 0
    (s, some count)

end Qmem
