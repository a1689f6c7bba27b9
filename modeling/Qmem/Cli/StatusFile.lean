import Qmem.Cli.StatusNumbers
import Qmem.Services.LastSample
import Qmem.Services.MeminfoText

/-!
# From `/proc/meminfo` to the terminal

Main result: `status_shows_file`.
-/

namespace Qmem

open CLib Meminfo

/-- The counter that `qmemctl status` shows. -/
def availableCounter : MeminfoCounter where
  name := .lit "available_kb"
  key := .lit "MemAvailable"
  field data := data.memAvailableKb
  update data value := { data with memAvailableKb := value }

theorem availableCounter_mem : availableCounter ∈ meminfoCounters :=
  List.mem_of_getElem? (i := 1) rfl

/-- The sample that is taken of a text. -/
theorem sample_entries {entries : List MeminfoEntry} {ended : Bool} {reads : List ReadResult}
    (hreads : ReadsAll reads (entriesText ended entries))
    (hlen : (entriesText ended entries).length < 8192) (buf : Bytes) :
    ∃ data, MeminfoRead.sample ⟨some reads, buf⟩ = some data ∧
      data.memAvailableKb.toInt = lastValue (.lit "MemAvailable") entries := by
  let text : CStr := ⟨entriesText ended entries, entriesText_nulFree ended entries⟩
  have htext : ReadsAll reads text.bytes := hreads
  obtain ⟨got, hread, hgot⟩ := procReadFile_whole htext buf hlen
  obtain ⟨data, hdata⟩ : ∃ data, MeminfoRead.sample ⟨some reads, buf⟩ = some data := by
    rw [MeminfoRead.sample, parseMeminfo, hread]
    exact ⟨_, rfl⟩
  have hfield := parseMeminfo_field hdata availableCounter_mem
  have hbound := lastValue_lt availableCounter.key entries
  refine ⟨data, hdata, ?_⟩
  rw [MeminfoRead.value, MeminfoRead.text, hread, hgot, show (0 : Int64) = .ofNat 0 from rfl,
    last_lines, last_given] at hfield
  calc data.memAvailableKb.toInt
      = (Int64.ofNat (lastValue availableCounter.key entries)).toInt := congrArg _ hfield
    _ = lastValue (.lit "MemAvailable") entries := Int64.toInt_ofNat_of_lt hbound

/-- What the service shows if nothing could be read. -/
theorem meminfoCollects_none {reads : List MeminfoRead}
    (h : Attempts.last MeminfoRead.sample reads = none) :
    (meminfoCollects reads).current = zeroData := by
  induction reads using List.reverseRecOn with
  | nil => rfl
  | append_singleton reads r ih =>
    cases hr : r.sample with
    | some data =>
      rw [Attempts.last_concat_some hr] at h
      exact absurd h.symm (Option.some_ne_none data).symm
    | none =>
      rw [Attempts.last_concat_none hr] at h
      rw [MeminfoRead.sample] at hr
      rw [meminfoCollects_snoc, meminfoCollect, hr]
      exact ih h

/-- **What `qmemctl status` shows as available is what the kernel has written**: the number on the
last line for it in the file that was read last, and the difference to the file that could be read
before that one, whatever reads have failed in between and whatever else is in the snapshot. -/
theorem status_shows_file {printG : ℚ → CStr} (hprint : ∀ d, 0x22 ∉ (printG d).bytes) {D : Type}
    [Zero D] (strtod : Bytes → D) (qsort : Qsort) (now : Int64) {ss post : List ServiceState}
    {before : List MeminfoRead} {entries : List MeminfoEntry} {ended : Bool}
    {reads : List ReadResult} (hreads : ReadsAll reads (entriesText ended entries))
    (hlen : (entriesText ended entries).length < 8192) (buf : Bytes)
    (hfind : findSection (.lit "meminfo") ss =
      some (.meminfo (meminfoCollects (before ++ [⟨some reads, buf⟩])), post)) :
    ∃ shown, ((cmdStatus strtod (document printG qsort now ss)).meminfo.bind (·.memory)).map
        (·.avail) = some (some shown) ∧
      shown.val.toInt = lastValue (.lit "MemAvailable") entries ∧
      shown.delta.toInt = lastValue (.lit "MemAvailable") entries -
        ((Attempts.last MeminfoRead.sample before).map
          fun old => old.memAvailableKb.toInt).getD 0 := by
  obtain ⟨data, hdata, hvalue⟩ := sample_entries hreads hlen buf
  have hstate : meminfoCollects (before ++ [⟨some reads, buf⟩]) =
      ⟨data, (meminfoCollects before).current, true⟩ := by
    rw [meminfoCollects_snoc, meminfoCollect, ← MeminfoRead.sample, hdata]
  rw [hstate] at hfind
  refine ⟨_, cmdStatus_available hprint strtod hfind (Or.inl rfl), hvalue, ?_⟩
  have hnew : 0 ≤ data.memAvailableKb.toInt := by omega
  have hdelta (old : MeminfoData) (hold : 0 ≤ old.memAvailableKb.toInt) :
      (data.memAvailableKb - old.memAvailableKb).toInt =
        lastValue (.lit "MemAvailable") entries - old.memAvailableKb.toInt := by
    rw [Deltas.toInt_sub_of_nonneg hnew hold, hvalue]
  simp only [availableOf, if_true]
  cases hlast : Attempts.last MeminfoRead.sample before with
  | none => rw [meminfoCollects_none hlast, hdelta zeroData (Int.le_refl 0)]; rfl
  | some old =>
    obtain ⟨r, -, hr⟩ := Attempts.exists_of_last hlast
    rw [meminfoCollects_current hlast]
    exact hdelta old (sample_nonneg hr availableCounter_mem)

end Qmem
