import Qmem.Daemon.PluginWatch

/-!
# The plugins follow the directory

As long as no file comes or goes between `plugin_loader_load_all` and the watch, no file that is
loaded is renamed away (`inotify` is not asked to report that), and no plugin moves to another
file, the plugins that are loaded are those in the directory whenever no event is waiting. The
invariant is that a file for which none is waiting is loaded if and only if it is there.

Main result: `plugins_follow_directory`.
-/

namespace Qmem

open CLib PluginLoader

/-! ## Paths -/

def filePath (base : CStr) (file : FileName) : CStr := base ++ .lit "/" ++ file.name

theorem filePath_length {base : CStr} (hbase : base.length ≤ 255) (file : FileName) :
    (filePath base file).length ≤ 511 := by
  have hshort := file.short
  have hslash : (CStr.lit "/").bytes.length = 1 := by decide
  rw [CStr.length] at hbase hshort ⊢
  rw [filePath, CStr.append_bytes, CStr.append_bytes, List.length_append, List.length_append,
    hslash]
  omega

theorem filePath_inj {base : CStr} {file other : FileName}
    (h : filePath base file = filePath base other) : file = other := by
  have hbytes := List.append_cancel_left (congrArg CStr.bytes h)
  obtain ⟨name, _, _⟩ := file
  obtain ⟨name', _, _⟩ := other
  obtain rfl : name = name' := CStr.ext hbytes
  rfl

theorem pluginPath_eq {base : CStr} (hbase : base.length ≤ 255) {s : PluginLoader}
    (hs : s.pluginDir = base) (file : FileName) : pluginPath s file.name = filePath base file := by
  have hlength := filePath_length hbase file
  rw [pluginPath, hs]
  exact CStr.cut_eq_self (Nat.le_trans hlength (by decide))

/-! ## The table -/

/-- The table is tidy, and its entries are of files in the directory. -/
structure Belongs (base : CStr) (files : List FileName) (s : PluginLoader) : Prop where
  inv : Inv base s
  tidy : s.Tidy
  files : ∀ k ∈ s.keys, k.1 ∈ files.map (filePath base)

namespace Belongs

variable {base : CStr} {files : List FileName} {directory : Directory} {s t : PluginLoader}

theorem of_keys_eq (h : Belongs base files s) (hinv : Inv base t) (hkeys : t.keys = s.keys) :
    Belongs base files t := by
  obtain ⟨-, ⟨hpaths, hnames⟩, hfiles⟩ := h
  rw [← hkeys] at hpaths hnames hfiles
  exact ⟨hinv, ⟨hpaths, hnames⟩, hfiles⟩

theorem unload (h : Belongs base files s) (path : CStr) :
    Belongs base files (unloadByPath s path) :=
  h.of_keys_eq (h.inv.unloadByPath path) (h.tidy.unloadByPath path).1

section

variable (hcount : files.length ≤ 16) (hbase : base.length ≤ 255) {file : FileName}
  (hfile : (directory file).isSome → file ∈ files)
  (hname : ∀ lib, directory file = some lib → s.OwnsName (filePath base file) lib.info.name)

include hcount hbase hfile hname

/-- A load loads what is in the file. -/
theorem load (h : Belongs base files s) (o : Opening) :
    Belongs base files (pluginLoaderLoad s (filePath base file) (loadEnv directory file o)).1 ∧
      ∀ other, (pluginLoaderLoad s (filePath base file)
        (loadEnv directory file o)).1.LoadedFrom other ↔
          s.LoadedFrom other ∨ (other = filePath base file ∧ (directory file).isSome) := by
  have hinv := h.inv.load (filePath base file) (loadEnv directory file o)
  by_cases hfree : s.LoadedFrom (filePath base file)
  · -- it has been loaded before
    rw [load_of_loaded h.tidy hfree]
    refine ⟨h, fun other => ⟨.inl, ?_⟩⟩
    rintro (hother | ⟨rfl, -⟩)
    · exact hother
    · exact hfree
  cases hlib : directory file with
  | none =>
    have hsame := load_of_closed s (filePath base file)
      (show (loadEnv directory file o).library = none by rw [loadEnv, hlib]; rfl)
    refine ⟨h.of_keys_eq hinv (keys_congr hsame), fun other => ?_⟩
    rw [loadedFrom_congr hsame]
    simp
  | some lib =>
    have hvalid : Valid (loadEnv directory file o) lib.info := by
      refine ⟨⟨o.address, ?_⟩, lib.version, fun hinit => o.initOk hinit.2⟩
      rw [loadEnv, hlib]
      rfl
    have hmem : filePath base file ∈ files.map (filePath base) :=
      List.mem_map_of_mem (hfile (by rw [hlib]; rfl))
    have hroom := h.tidy.length_le h.files
    have hloaded := h.tidy.count_lt h.files hmem hfree
    rw [List.length_map] at hroom hloaded
    have hloads := h.tidy.load h.inv hvalid (filePath_length hbase file) hfree (hname lib hlib)
      (by rw [maxPlugins]; omega) (by omega)
    refine ⟨⟨hinv, hloads.tidy, fun k hk => ?_⟩, fun other => ?_⟩
    · rcases (hloads.keys k).1 hk with rfl | ⟨hk, -⟩
      · exact hmem
      · exact h.files k hk
    · rw [hloads.loaded]
      simp

/-- A change event loads its file again. -/
theorem reload (h : Belongs base files s) (o : Opening) :
    Belongs base files (pluginLoaderReload s (filePath base file) (loadEnv directory file o)).1 ∧
      ∀ other, (pluginLoaderReload s (filePath base file)
        (loadEnv directory file o)).1.LoadedFrom other ↔
          (s.LoadedFrom other ∧ other ≠ filePath base file) ∨
            (other = filePath base file ∧ (directory file).isSome) := by
  obtain ⟨hkeys, hunload⟩ := h.tidy.unloadByPath (filePath base file)
  have howns (lib : Library) (hlib : directory file = some lib) :
      (unloadByPath s (filePath base file)).OwnsName (filePath base file) lib.info.name := by
    rw [OwnsName, hkeys]
    exact hname lib hlib
  obtain ⟨hbelongs, hloaded⟩ := (h.unload _).load hcount hbase hfile howns o
  refine ⟨hbelongs, fun other => ?_⟩
  rw [pluginLoaderReload, hloaded, hunload]

end

/-- After an event has been handled, its file is loaded if the event is about one that there is
and is not about one that is gone. -/
theorem handle (hcount : files.length ≤ 16) (hbase : base.length ≤ 255) {e : FileEvent}
    (hfile : (directory e.file).isSome → e.file ∈ files)
    (hname : e.kind ≠ .delete → ∀ lib, directory e.file = some lib →
      s.OwnsName (filePath base e.file) lib.info.name)
    (h : Belongs base files s) (hwatched : e.kind.watched = true) (o : Opening) :
    Belongs base files (handleEvent s e.inotify (loadEnv directory e.file o)) ∧
      ∀ other, (handleEvent s e.inotify (loadEnv directory e.file o)).LoadedFrom other ↔
        (s.LoadedFrom other ∧ other ≠ filePath base e.file) ∨
          (other = filePath base e.file ∧ e.kind ≠ .delete ∧ (directory e.file).isSome) := by
  have hpath := pluginPath_eq hbase h.inv.pluginDir_eq e.file
  by_cases hdelete : e.kind = .delete
  · have hhandled : handleEvent s e.inotify (loadEnv directory e.file o) =
        unloadByPath s (filePath base e.file) := by
      simp [handleEvent, FileEvent.inotify, e.file.isFile, hdelete, hpath]
    rw [hhandled]
    refine ⟨h.unload _, fun other => ?_⟩
    rw [(h.tidy.unloadByPath _).2]
    simp [hdelete]
  · have hchanged : (decide (e.kind = .closeWrite) || decide (e.kind = .movedTo)) = true := by
      cases hkind : e.kind with
      | closeWrite => rfl
      | movedTo => rfl
      | movedFrom =>
        rw [hkind] at hwatched
        exact absurd hwatched Bool.false_ne_true
      | delete => exact absurd hkind hdelete
    have hhandled : handleEvent s e.inotify (loadEnv directory e.file o) =
        (pluginLoaderReload s (filePath base e.file) (loadEnv directory e.file o)).1 := by
      simp only [handleEvent, FileEvent.inotify, e.file.isFile, if_true, hchanged, hpath]
    obtain ⟨hbelongs, hloaded⟩ := h.reload hcount hbase hfile (hname hdelete) o
    rw [hhandled]
    refine ⟨hbelongs, fun other => ?_⟩
    rw [hloaded]
    simp [hdelete]

end Belongs

/-! ## What is waiting -/

/-- The last event for a file. -/
def lastEvent (queue : List FileEvent) (file : FileName) : Option FileEvent :=
  (queue.filter (·.file = file)).getLast?

theorem lastEvent_append_self (queue : List FileEvent) (e : FileEvent) :
    lastEvent (queue ++ [e]) e.file = some e := by
  simp [lastEvent]

theorem lastEvent_append_other (queue : List FileEvent) {e : FileEvent} {file : FileName}
    (h : e.file ≠ file) : lastEvent (queue ++ [e]) file = lastEvent queue file := by
  simp [lastEvent, h]

theorem lastEvent_of_tail {queue : List FileEvent} {e e' : FileEvent} {file : FileName}
    (h : lastEvent queue file = some e') : lastEvent (e :: queue) file = some e' := by
  rw [lastEvent] at h ⊢
  rw [List.filter_cons]
  split
  · rw [List.getLast?_cons, h]
    rfl
  · exact h

theorem lastEvent_head {queue : List FileEvent} {e : FileEvent}
    (h : ∀ e' ∈ queue, e'.file ≠ e.file) : lastEvent (e :: queue) e.file = some e := by
  have hnone : queue.filter (·.file = e.file) = [] := by
    simpa [List.filter_eq_nil_iff] using h
  rw [lastEvent, List.filter_cons_of_pos (by simp), hnone]
  rfl

/-- The invariant of a run: a file for which no event is waiting is loaded if and only if it is
there. -/
structure Watch.Good (base : CStr) (files : List FileName) (w : Watch) : Prop where
  belongs : Belongs base files w.loader
  known : ∀ file, (w.directory file).isSome → file ∈ files
  noEvents : w.stage ≠ .watching → w.queue = []
  found : w.stage ≠ .watching →
    ∀ file, w.loader.LoadedFrom (filePath base file) ↔ file ∈ w.seen
  watched : ∀ e ∈ w.queue, e.kind.watched = true
  current : w.stage = .watching → ∀ file, (∀ e ∈ w.queue, e.file ≠ file) →
    (w.loader.LoadedFrom (filePath base file) ↔ (w.directory file).isSome)
  deleted : ∀ file e, lastEvent w.queue file = some e → e.kind = .delete →
    w.directory file = none

namespace Watch.Good

variable {base : CStr} {files : List FileName} {w : Watch}

/-- The directory changes, and events for `file` follow, if any; where none does, one is waiting,
or the file is there as before. -/
theorem of_change (h : w.Good base files) {directory : Directory} {events : List FileEvent}
    {c : Change} (hdirectory : c.apply w.directory = directory)
    (hevents : c.events.filter (·.kind.watched) = events)
    (hknown : ∀ file, (directory file).isSome → file ∈ files)
    (hcurrent : w.stage = .watching → ∀ file, (∀ e ∈ w.queue ++ events, e.file ≠ file) →
      (directory file).isSome = (w.directory file).isSome)
    (hdeleted : ∀ file e, lastEvent (w.queue ++ events) file = some e → e.kind = .delete →
      directory file = none) : (w.change c).Good base files := by
  rw [Watch.change, hdirectory, hevents]
  by_cases hstage : w.stage = .watching
  · rw [if_pos hstage]
    refine ⟨h.belongs, hknown, fun hne => absurd hstage hne, fun hne => absurd hstage hne,
      fun e he => ?_, fun _ file hnone => ?_, hdeleted⟩
    · rcases List.mem_append.1 he with he | he
      · exact h.watched e he
      · rw [← hevents] at he
        exact (List.mem_filter.1 he).2
    · rw [hcurrent hstage file hnone]
      exact h.current hstage file fun e he => hnone e (List.mem_append_left _ he)
  · rw [if_neg hstage, h.noEvents hstage]
    exact ⟨h.belongs, hknown, fun _ => rfl, h.found, fun e he => absurd he List.not_mem_nil,
      fun hwatching => absurd hwatching hstage, fun file e he => absurd he (by simp [lastEvent])⟩

/-- A file comes, or another comes in its place. -/
theorem put (h : w.Good base files) {c : Change} {directory : Directory} {file : FileName}
    {lib : Option Library} {kind : EventKind} (hfile : file ∈ files)
    (hdirectory : c.apply w.directory = Function.update directory file lib)
    (hevents : c.events.filter (·.kind.watched) = [⟨kind, file⟩]) (hkind : kind ≠ .delete)
    (hcurrent : w.stage = .watching → ∀ other, other ≠ file → (∀ e ∈ w.queue, e.file ≠ other) →
      (directory other).isSome = (w.directory other).isSome)
    (hfewer : ∀ other, w.directory other = none → directory other = none) :
    (w.change c).Good base files := by
  refine h.of_change hdirectory hevents (fun other hsome => ?_) (fun hstage other hnone => ?_)
    fun other e he hdelete => ?_
  · by_cases hother : other = file
    · rw [hother]
      exact hfile
    · rw [Function.update_of_ne hother] at hsome
      refine h.known other (Option.isSome_iff_ne_none.2 fun hnone => ?_)
      rw [hfewer other hnone] at hsome
      exact absurd hsome Bool.false_ne_true
  · have hother : other ≠ file := fun heq =>
      hnone ⟨kind, file⟩ (List.mem_append_right _ (List.mem_singleton_self _)) heq.symm
    rw [Function.update_of_ne hother]
    exact hcurrent hstage other hother fun e he => hnone e (List.mem_append_left _ he)
  · by_cases hother : other = file
    · have hlast := lastEvent_append_self w.queue ⟨kind, file⟩
      rw [hother] at he
      rw [he, Option.some.injEq] at hlast
      rw [hlast] at hdelete
      exact absurd hdelete hkind
    · rw [lastEvent_append_other _ (Ne.symm hother)] at he
      rw [Function.update_of_ne hother]
      exact hfewer other (h.deleted other e he hdelete)

/-- A file goes. -/
theorem remove (h : w.Good base files) {c : Change} {file : FileName} {events : List FileEvent}
    (hdirectory : c.apply w.directory = Function.update w.directory file none)
    (hevents : c.events.filter (·.kind.watched) = events)
    (hfile : ∀ e ∈ events, e.file = file)
    (hwaiting : w.stage = .watching → ∃ e ∈ w.queue ++ events, e.file = file) :
    (w.change c).Good base files := by
  refine h.of_change hdirectory hevents (fun other hsome => ?_) (fun hstage other hnone => ?_)
    fun other e he hdelete => ?_
  · by_cases hother : other = file
    · rw [hother, Function.update_self] at hsome
      exact absurd hsome Bool.false_ne_true
    · rw [Function.update_of_ne hother] at hsome
      exact h.known other hsome
  · have hother : other ≠ file := by
      rintro rfl
      obtain ⟨e, he, heq⟩ := hwaiting hstage
      exact hnone e he heq
    rw [Function.update_of_ne hother]
  · by_cases hother : other = file
    · rw [hother, Function.update_self]
    · rw [Function.update_of_ne hother]
      refine h.deleted other e ?_ hdelete
      have hnone : events.filter (·.file = other) = [] := by
        refine List.filter_eq_nil_iff.2 fun e' he' => ?_
        rw [hfile e' he', decide_eq_true_eq]
        exact Ne.symm hother
      rwa [lastEvent, List.filter_append, hnone, List.append_nil] at he

theorem change (h : w.Good base files) {c : Change} (hpossible : (Move.change c).Possible files w)
    (hfollowed : (Move.change c).Followed w) : (w.change c).Good base files := by
  cases c with
  | create file lib =>
    exact h.put hpossible rfl rfl (by decide) (fun _ _ _ _ => rfl) fun _ hnone => hnone
  | renameIn file lib =>
    exact h.put hpossible rfl rfl (by decide) (fun _ _ _ _ => rfl) fun _ hnone => hnone
  | renameOut file =>
    refine h.remove rfl rfl (fun e he => absurd he List.not_mem_nil) fun hstage => ?_
    obtain ⟨e, he, heq⟩ := hfollowed hstage
    exact ⟨e, List.mem_append_left _ he, heq⟩
  | renameWithin old new =>
    refine h.put hpossible.2.1 rfl rfl (by decide) (fun hstage other _ hnone => ?_)
      fun other hnone => ?_
    · have hother : other ≠ old := by
        rintro rfl
        obtain ⟨e, he, heq⟩ := hfollowed hstage
        exact hnone e he heq
      rw [Function.update_of_ne hother]
    · by_cases hother : other = old
      · rw [hother, Function.update_self]
      · rwa [Function.update_of_ne hother]
  | delete file =>
    refine h.remove rfl rfl (fun e he => ?_) fun _ => ?_
    · rw [List.mem_singleton.1 he]
    · exact ⟨⟨.delete, file⟩, List.mem_append_right _ (List.mem_singleton_self _), rfl⟩

/-- The watch is added to a directory with the files that have been found. -/
theorem startWatcher (h : w.Good base files) (hfollowed : Move.startWatcher.Followed w) :
    (w.next .startWatcher).Good base files := by
  obtain ⟨directory, loader, stage, seen, queue⟩ := w
  rw [Watch.next]
  split
  · case h_1 hstage =>
    obtain rfl : stage = .loading [] := hstage
    have hne : Stage.loading [] ≠ .watching := Stage.noConfusion
    refine ⟨h.belongs.of_keys_eq ?_ rfl, h.known, fun hno => absurd rfl hno,
      fun hno => absurd rfl hno, h.watched, fun _ file _ => ?_, h.deleted⟩
    · obtain ⟨hdir, hregistered, hfaithful, hshort, hfirst⟩ := h.belongs.inv
      exact ⟨hdir, hregistered, hfaithful, hshort, hfirst⟩
    · exact (h.found hne file).trans (hfollowed rfl file)
  · exact h

section

variable (hcount : files.length ≤ 16) (hbase : base.length ≤ 255)

include hcount hbase

/-- `plugin_loader_load_all` comes to the next file. -/
theorem loadNext (h : w.Good base files) (o : Opening) (hfollowed : (Move.loadNext o).Followed w) :
    (w.loadNext o).Good base files := by
  obtain ⟨directory, loader, stage, seen, queue⟩ := w
  rw [Watch.loadNext]
  split
  · case h_1 file todo hstage =>
    obtain rfl : stage = .loading (file :: todo) := hstage
    have hne : Stage.loading (file :: todo) ≠ .watching := Stage.noConfusion
    have hqueue : queue = [] := h.noEvents hne
    have hpath : Watch.path ⟨directory, loader, .loading (file :: todo), seen, queue⟩ file =
        filePath base file := pluginPath_eq hbase h.belongs.inv.pluginDir_eq file
    have hname := hfollowed file todo rfl
    rw [Watch.NameFree, hpath] at hname
    simp only [hpath]
    obtain ⟨hbelongs, hafter⟩ := h.belongs.load hcount hbase (h.known file) hname o
    refine ⟨hbelongs, h.known, fun _ => hqueue, fun _ other => ?_, h.watched,
      fun hwatching => absurd hwatching Stage.noConfusion, h.deleted⟩
    have hfound := h.found hne other
    simp only at hfound hafter ⊢
    rw [hafter, hfound]
    by_cases hsome : (directory file).isSome = true
    · rw [if_pos hsome, List.mem_cons]
      constructor
      · rintro (hmem | ⟨heq, -⟩)
        · exact .inr hmem
        · exact .inl (filePath_inj heq)
      · rintro (rfl | hmem)
        · exact .inr ⟨rfl, hsome⟩
        · exact .inl hmem
    · rw [if_neg hsome]
      exact ⟨fun hcases => hcases.resolve_right fun hpair => hsome hpair.2, .inl⟩
  · exact h

/-- An event is handled. -/
theorem handle (h : w.Good base files) (o : Opening) (hfollowed : (Move.handle o).Followed w) :
    (w.handle o).Good base files := by
  obtain ⟨directory, loader, stage, seen, queue⟩ := w
  cases queue with
  | nil => exact h
  | cons e queue =>
    have hwatching : stage = .watching := by
      by_contra hne
      exact absurd (h.noEvents hne) (List.cons_ne_nil e queue)
    have hpath : Watch.path ⟨directory, loader, stage, seen, e :: queue⟩ e.file =
        filePath base e.file := pluginPath_eq hbase h.belongs.inv.pluginDir_eq e.file
    have hname := hfollowed e queue rfl
    rw [Watch.NameFree, hpath] at hname
    obtain ⟨hbelongs, hafter⟩ := h.belongs.handle hcount hbase (h.known e.file) hname
      (h.watched e List.mem_cons_self) o
    refine ⟨hbelongs, h.known, fun hne => absurd hwatching hne, fun hne => absurd hwatching hne,
      fun e' he' => h.watched e' (List.mem_cons_of_mem e he'), fun _ file hnone => ?_,
      fun file e' he' => h.deleted file e' (lastEvent_of_tail he')⟩
    show (handleEvent loader e.inotify (loadEnv directory e.file o)).LoadedFrom _ ↔ _
    rw [hafter]
    by_cases hfile : file = e.file
    · -- this was the last event for the file
      subst hfile
      simp only [ne_eq, not_true_eq_false, and_false, true_and, false_or]
      refine ⟨fun hpair => hpair.2, fun hsome => ⟨fun hdelete => ?_, hsome⟩⟩
      have hgone : directory e.file = none := h.deleted e.file e (lastEvent_head hnone) hdelete
      have hsome : (directory e.file).isSome = true := hsome
      rw [hgone] at hsome
      exact absurd hsome Bool.false_ne_true
    · have hother : filePath base file ≠ filePath base e.file := fun heq =>
        hfile (filePath_inj heq)
      have hbefore := h.current hwatching file fun e' he' => by
        rcases List.mem_cons.1 he' with rfl | he'
        · exact fun heq => hfile heq.symm
        · exact hnone e' he'
      simp only [ne_eq, hother, not_false_eq_true, and_true, false_and, or_false]
      exact hbefore

/-- **Every move** that is possible, and that the loader can follow, keeps the invariant. -/
theorem next (h : w.Good base files) {m : Move} (hpossible : m.Possible files w)
    (hfollowed : m.Followed w) : (w.next m).Good base files := by
  cases m with
  | change c => exact h.change hpossible hfollowed
  | loadAll order =>
    rw [Watch.next]
    split
    · case h_1 hstage =>
      have hne : w.stage ≠ .watching := by
        rw [hstage]
        exact Stage.noConfusion
      exact ⟨h.belongs, h.known, fun _ => h.noEvents hne, fun _ => h.found hne, h.watched,
        fun hwatching => absurd hwatching Stage.noConfusion, h.deleted⟩
    · exact h
  | loadNext o => exact h.loadNext hcount hbase o hfollowed
  | startWatcher => exact h.startWatcher hfollowed
  | handle o => exact h.handle hcount hbase o hfollowed

end

/-- When no event is waiting, all the files are loaded, and nothing else. -/
theorem follows (h : w.Good base files) (hbase : base.length ≤ 255)
    (hwatching : w.stage = .watching) (hqueue : w.queue = []) : w.Follows := by
  have hcurrent (file : FileName) := h.current hwatching file (by simp [hqueue])
  have hpath (file : FileName) : w.path file = filePath base file :=
    pluginPath_eq hbase h.belongs.inv.pluginDir_eq file
  intro path
  constructor
  · intro hloaded
    obtain ⟨p, hp, rfl, hload⟩ := id hloaded
    obtain ⟨file, -, hfile⟩ := List.mem_map.1 (h.belongs.files _ (List.mem_map_of_mem hp))
    have hfile : filePath base file = p.path := hfile
    refine ⟨file, (hcurrent file).1 ?_, by rw [hpath, hfile]⟩
    rwa [hfile]
  · rintro ⟨file, hsome, rfl⟩
    rw [hpath]
    exact (hcurrent file).2 hsome

end Watch.Good

/-! ## Runs -/

theorem base_length (pluginDir : CharArray 255) :
    (pluginLoaderInit pluginDir.text).pluginDir.length ≤ 255 := by
  have hcut (s : CStr) : (s.cut 511).length ≤ s.length := by
    simp [CStr.length, List.length_take]
  have hdefault : pluginDirDefault.length ≤ 255 := by decide
  rw [pluginLoaderInit]
  split
  · exact Nat.le_trans (hcut _) hdefault
  · exact Nat.le_trans (hcut _) pluginDir.length_text

theorem Watch.good_start (pluginDir : CharArray 255) (files : List FileName) :
    (Watch.start pluginDir).Good (pluginLoaderInit pluginDir.text).pluginDir files where
  belongs := ⟨inv_init pluginDir.text, ⟨List.nodup_nil, List.nodup_nil⟩,
    fun k hk => absurd hk List.not_mem_nil⟩
  known file hsome := absurd hsome Bool.false_ne_true
  noEvents _ := rfl
  found _ file := by
    simp [Watch.start, LoadedFrom, pluginLoaderInit]
  watched e he := absurd he List.not_mem_nil
  current hwatching := by cases hwatching
  deleted file e he := absurd he (by simp [Watch.start, lastEvent])

/-- **The plugins follow the directory** in every run whose moves the loader can follow: when no
event is waiting, they are loaded from the files that there are. -/
theorem plugins_follow_directory (pluginDir : CharArray 255) (files : List FileName)
    (hcount : files.length ≤ 16) (moves : List Move)
    (hpossible : ∀ (k : Nat) (m : Move), moves[k]? = some m →
      m.Possible files (Watch.after pluginDir (moves.take k)))
    (hfollowed : ∀ (k : Nat) (m : Move), moves[k]? = some m →
      m.Followed (Watch.after pluginDir (moves.take k))) :
    ∀ k ≤ moves.length, (Watch.after pluginDir (moves.take k)).stage = .watching →
      (Watch.after pluginDir (moves.take k)).queue = [] →
      (Watch.after pluginDir (moves.take k)).Follows := by
  intro k hk hwatching hqueue
  have hbase := base_length pluginDir
  have hgood : (Watch.after pluginDir (moves.take k)).Good
      (pluginLoaderInit pluginDir.text).pluginDir files := by
    have hstep (w : Watch) (m : Move)
        (hw : w.Good (pluginLoaderInit pluginDir.text).pluginDir files)
        (hok : m.Possible files w ∧ m.Followed w) :
        (w.next m).Good (pluginLoaderInit pluginDir.text).pluginDir files :=
      hw.next hcount hbase hok.1 hok.2
    refine Run.invariant_of_ok (Watch.good_start pluginDir files) hstep (moves.take k)
      fun j m hm => ?_
    have hj : j < k := by
      have hlt := (List.getElem?_eq_some_iff.1 hm).1
      rw [List.length_take] at hlt
      omega
    rw [List.getElem?_take_of_lt hj] at hm
    have htake : (moves.take k).take j = moves.take j := by
      rw [List.take_take, Nat.min_eq_left (Nat.le_of_lt hj)]
    rw [htake]
    exact ⟨hpossible j m hm, hfollowed j m hm⟩
  exact hgood.follows hbase hwatching hqueue

/-! ## A file that is there from the start -/

/-- One file in an empty directory. -/
theorem isSome_update {file other : FileName} {lib : Library} :
    (Function.update (fun _ => none : Directory) file (some lib) other).isSome ↔
      other = file := by
  by_cases h : other = file
  · simp [h]
  · simp [h]

/-- The directory `/p` with the files `a.so` and `b.so`. -/
def pluginDirP : CharArray 255 := (CharArray.zero 255).strncpy (.lit "/p")

def fileA : FileName := ⟨.lit "a.so", by decide, by decide⟩
def fileB : FileName := ⟨.lit "b.so", by decide, by decide⟩

/-- A library that exports a plugin. -/
def libraryOf (name : CStr) : Library where
  info := {
    apiVersion := pluginApiVersion
    name
    service := { object := 1, name, ops := none, enabled := true } }
  version := rfl

def opened : Opening := ⟨1, 0, 0, by decide⟩

/-- `a.so` is there when the daemon starts. -/
def startedMoves : List Move := [
  .change (.create fileA (libraryOf (.lit "x"))),
  .loadAll [fileA],
  .loadNext opened,
  .startWatcher]

theorem startedMoves_possible (k : Nat) (m : Move) (hm : startedMoves[k]? = some m) :
    m.Possible [fileA, fileB] (Watch.after pluginDirP (startedMoves.take k)) := by
  match k, hm with
  | 0, rfl => exact List.mem_cons_self
  | 1, rfl => exact fun file hsome => List.mem_singleton.2 (isSome_update.1 hsome)
  | 2, rfl => trivial
  | 3, rfl => trivial

theorem startedMoves_followed (k : Nat) (m : Move) (hm : startedMoves[k]? = some m) :
    m.Followed (Watch.after pluginDirP (startedMoves.take k)) := by
  match k, hm with
  | 0, rfl => trivial
  | 1, rfl => trivial
  | 2, rfl => exact fun _ _ _ _ _ _ hk => absurd hk List.not_mem_nil
  | 3, rfl =>
    intro _ file
    rw [show (Watch.after pluginDirP (startedMoves.take 3)).seen = [fileA] by rfl,
      List.mem_singleton]
    exact isSome_update.symm

/-- `b.so` comes later. -/
theorem plugins_follow_directory_created :
    let moves := startedMoves ++ [.change (.create fileB (libraryOf (.lit "y"))), .handle opened]
    (Watch.after pluginDirP moves).Follows := by
  intro moves
  refine plugins_follow_directory pluginDirP [fileA, fileB] (by decide) moves
    (fun k m hm => ?_) (fun k m hm => ?_) 6 (by decide) rfl rfl
  · match k, hm with
    | 4, rfl => exact List.mem_cons_of_mem _ List.mem_cons_self
    | 5, rfl => trivial
    | 0, hm => exact startedMoves_possible 0 m hm
    | 1, hm => exact startedMoves_possible 1 m hm
    | 2, hm => exact startedMoves_possible 2 m hm
    | 3, hm => exact startedMoves_possible 3 m hm
  · match k, hm with
    | 4, rfl => trivial
    | 5, rfl =>
      have hkeys : (Watch.after pluginDirP (moves.take 5)).loader.keys.map Prod.snd =
          [.lit "x"] := by decide +kernel
      rintro e queue hqueue - lib hlib k hk hname
      obtain rfl : e = ⟨.closeWrite, fileB⟩ := by cases hqueue; rfl
      obtain rfl : lib = libraryOf (.lit "y") := by cases hlib; rfl
      have hmem := List.mem_map_of_mem (f := Prod.snd) hk
      rw [hkeys, List.mem_singleton, hname] at hmem
      exact absurd hmem (by decide)
    | 0, hm => exact startedMoves_followed 0 m hm
    | 1, hm => exact startedMoves_followed 1 m hm
    | 2, hm => exact startedMoves_followed 2 m hm
    | 3, hm => exact startedMoves_followed 3 m hm

/-- No event tells that `a.so` has been renamed away. -/
theorem renamed_out_stays_loaded :
    let moves := startedMoves ++ [.change (.renameOut fileA)]
    (∀ (k : Nat) (m : Move), moves[k]? = some m →
        m.Possible [fileA, fileB] (Watch.after pluginDirP (moves.take k))) ∧
      (Watch.after pluginDirP moves).stage = .watching ∧
      (Watch.after pluginDirP moves).queue = [] ∧ ¬ (Watch.after pluginDirP moves).Follows := by
  refine ⟨fun k m hm => ?_, rfl, rfl, fun hfollows => ?_⟩
  · match k, hm with
    | 4, rfl => rfl
    | 0, hm => exact startedMoves_possible 0 m hm
    | 1, hm => exact startedMoves_possible 1 m hm
    | 2, hm => exact startedMoves_possible 2 m hm
    | 3, hm => exact startedMoves_possible 3 m hm
  · have hloaded : ((loadedPlugins (Watch.after pluginDirP
        (startedMoves ++ [.change (.renameOut fileA)])).loader).map (·.path)) =
        [.lit "/p/a.so"] := by decide +kernel
    obtain ⟨p, hp, hpath⟩ := List.mem_map.1 (hloaded ▸ List.mem_singleton_self _)
    obtain ⟨file, hsome, -⟩ := (hfollows _).1 (loadedFrom_iff_mem.2 ⟨p, hp, hpath⟩)
    have hgone : (Watch.after pluginDirP
        (startedMoves ++ [.change (.renameOut fileA)])).directory file = none := by
      show Function.update (Function.update (fun _ => none) fileA _) fileA none file = none
      rw [Function.update_idem, Function.update_eq_self_iff.2 rfl]
    rw [hgone] at hsome
    exact absurd hsome Bool.false_ne_true

end Qmem
