import Qmem.Daemon.PluginTable
import Qmem.Lib.CharArray

/-!
# The plugin directory and its watcher

Files come and go while the daemon loads the directory, adds the watch and handles the events.
What happens is a sequence of moves. `run_loadNext` and `run_handle` lead back to the functions of
the loader: they are the moves that nothing comes between.
-/

namespace Qmem

open CLib PluginLoader

/-! ## The directory -/

/-- The name of a file that the loader looks at. -/
structure FileName where
  name : CStr
  isFile : isPluginFile name = true
  short : name.length ≤ 255
deriving DecidableEq

/-- A library that exports a plugin of the right version. -/
structure Library where
  info : PluginInfo
  version : info.apiVersion = pluginApiVersion

/-- The files that there are, with what is in them. -/
abbrev Directory := FileName → Option Library

/-- What can happen to the directory. A file is created or written anew, and closed; another name
in the directory may be one that does not end in `.so`, which counts as outside. -/
inductive Change where
  | create (file : FileName) (lib : Library)
  | renameIn (file : FileName) (lib : Library)
  | renameOut (file : FileName)
  | renameWithin (old new : FileName)
  | delete (file : FileName)

def Change.apply (directory : Directory) : Change → Directory
  | .create file lib | .renameIn file lib => Function.update directory file (some lib)
  | .renameOut file | .delete file => Function.update directory file none
  | .renameWithin old new =>
    Function.update (Function.update directory old none) new (directory old)

/-! ## Events -/

inductive EventKind where
  | closeWrite
  | movedFrom
  | movedTo
  | delete
deriving DecidableEq

/-- The mask of `inotify_add_watch`. -/
def EventKind.watched : EventKind → Bool
  | .closeWrite | .movedTo | .delete => true
  | .movedFrom => false

structure FileEvent where
  kind : EventKind
  file : FileName

def Change.events : Change → List FileEvent
  | .create file _ => [⟨.closeWrite, file⟩]
  | .renameIn file _ => [⟨.movedTo, file⟩]
  | .renameOut file => [⟨.movedFrom, file⟩]
  | .renameWithin old new => [⟨.movedFrom, old⟩, ⟨.movedTo, new⟩]
  | .delete file => [⟨.delete, file⟩]

/-- As it is read. -/
def FileEvent.inotify (e : FileEvent) : InotifyEvent where
  closeWrite := e.kind = .closeWrite
  movedTo := e.kind = .movedTo
  delete := e.kind = .delete
  name := some e.file.name

/-! ## The daemon and the directory -/

/-- `loading` are the entries that `plugin_loader_load_all` has yet to come to. -/
inductive Stage where
  | start
  | loading (todo : List FileName)
  | watching
deriving DecidableEq

/-- `seen` are the files that `plugin_loader_load_all` has found there; `queue` are the events
that have not been handled. -/
structure Watch where
  directory : Directory
  loader : PluginLoader
  stage : Stage
  seen : List FileName
  queue : List FileEvent

/-- How a library opens. -/
structure Opening where
  address : Nat
  initRet : Int32
  mtime : Int64
  initOk : ¬ initRet < 0

/-- What a load of the file meets. -/
def loadEnv (directory : Directory) (file : FileName) (o : Opening) : LoadEnv where
  library := (directory file).map fun lib => (o.address, some lib.info)
  initRet := o.initRet
  mtime := o.mtime

/-- The directory changes; `plugin_loader_load_all` reads it, in some order, and comes to one file
after the other; the watch is added; `plugin_loader_check_updates` handles an event. -/
inductive Move where
  | change (c : Change)
  | loadAll (order : List FileName)
  | loadNext (o : Opening)
  | startWatcher
  | handle (o : Opening)

namespace Watch

def start (pluginDir : CharArray 255) : Watch where
  directory := fun _ => none
  loader := pluginLoaderInit pluginDir.text
  stage := .start
  seen := []
  queue := []

def path (w : Watch) (file : FileName) : CStr := pluginPath w.loader file.name

def change (w : Watch) (c : Change) : Watch :=
  { w with
    directory := c.apply w.directory
    queue := if w.stage = .watching then w.queue ++ c.events.filter (·.kind.watched)
      else w.queue }

def loadNext (w : Watch) (o : Opening) : Watch :=
  match w.stage with
  | .loading (file :: todo) => {
      w with
      loader := (pluginLoaderLoad w.loader (w.path file) (loadEnv w.directory file o)).1
      stage := .loading todo
      seen := if (w.directory file).isSome then file :: w.seen else w.seen }
  | _ => w

def handle (w : Watch) (o : Opening) : Watch :=
  match w.queue with
  | [] => w
  | e :: queue => {
      w with
      loader := handleEvent w.loader e.inotify (loadEnv w.directory e.file o)
      queue := queue }

def next (w : Watch) : Move → Watch
  | .change c => w.change c
  | .loadAll order =>
    match w.stage with
    | .start => { w with stage := .loading order }
    | _ => w
  | .loadNext o => w.loadNext o
  | .startWatcher =>
    match w.stage with
    | .loading [] => {
        w with loader := (pluginLoaderStartWatcher w.loader true true).1, stage := .watching }
    | _ => w
  | .handle o => w.handle o

/-- After some moves. -/
abbrev after (pluginDir : CharArray 255) (moves : List Move) : Watch :=
  Run.state next (start pluginDir) moves

/-! ## The functions of the loader -/

/-- Loads that nothing comes between are `plugin_loader_load_all`. -/
theorem run_loadNext (w : Watch) (todo : List FileName) (o : Opening)
    (h : w.stage = .loading todo) :
    (Run.state next w (todo.map fun _ => Move.loadNext o)).loader =
      (pluginLoaderLoadAll w.loader
        (some (todo.map fun file => (file.name, loadEnv w.directory file o)))).1 := by
  rw [pluginLoaderLoadAll, Option.getD_some]
  generalize 0 = loaded
  induction todo generalizing w loaded with
  | nil => rfl
  | cons file todo ih =>
    have hnext : w.next (.loadNext o) = {
        w with
        loader := (pluginLoaderLoad w.loader (w.path file) (loadEnv w.directory file o)).1
        stage := .loading todo
        seen := if (w.directory file).isSome then file :: w.seen else w.seen } := by
      rw [next, loadNext, h]
    rw [List.map_cons, List.map_cons, List.foldl_cons, Run.state_cons, hnext]
    simp only [file.isFile, if_true]
    exact ih _ rfl _

/-- The events that one `read` delivers are `plugin_loader_check_updates`. -/
theorem run_handle (w : Watch) {events rest : List FileEvent} (hqueue : w.queue = events ++ rest)
    (o : Opening) (hwatching : w.loader.watching = true) :
    (Run.state next w (events.map fun _ => Move.handle o)).loader =
      pluginLoaderCheckUpdates w.loader
        (events.map fun e => (e.inotify, loadEnv w.directory e.file o)) := by
  rw [pluginLoaderCheckUpdates, if_pos hwatching]
  clear hwatching
  obtain ⟨directory, loader, stage, seen, queue⟩ := w
  obtain rfl : queue = events ++ rest := hqueue
  induction events generalizing loader with
  | nil => rfl
  | cons e events ih => exact ih _

end Watch

/-! ## Moves -/

/-- What the directory allows; `files` are those that ever come. What comes while the directory is
read may be found or not. -/
def Move.Possible (files : List FileName) (w : Watch) : Move → Prop
  | .change (.create file _) | .change (.renameIn file _) => file ∈ files
  | .change (.renameOut file) | .change (.delete file) => (w.directory file).isSome
  | .change (.renameWithin old new) => (w.directory old).isSome ∧ new ∈ files ∧ old ≠ new
  | .loadAll order => ∀ file, (w.directory file).isSome → file ∈ order
  | .loadNext _ | .startWatcher | .handle _ => True

/-- No entry of another path has the name of the plugin in the file. -/
def Watch.NameFree (w : Watch) (file : FileName) : Prop :=
  ∀ lib, w.directory file = some lib → w.loader.OwnsName (w.path file) lib.info.name

/-- What the loader can follow: a file that is renamed away has an event waiting, the name of a
plugin that comes to be loaded is free, and when the watch is added the directory has the files
that have been found. -/
def Move.Followed (w : Watch) : Move → Prop
  | .change (.renameOut file) | .change (.renameWithin file _) =>
    w.stage = .watching → ∃ e ∈ w.queue, e.file = file
  | .loadNext _ => ∀ file todo, w.stage = .loading (file :: todo) → w.NameFree file
  | .startWatcher => w.stage = .loading [] → ∀ file, file ∈ w.seen ↔ (w.directory file).isSome
  | .handle _ => ∀ e queue, w.queue = e :: queue → e.kind ≠ .delete → w.NameFree e.file
  | .change _ | .loadAll _ => True

/-- The plugins are loaded from the files that there are. -/
def Watch.Follows (w : Watch) : Prop :=
  ∀ path, w.loader.LoadedFrom path ↔ ∃ file, (w.directory file).isSome ∧ path = w.path file

end Qmem
