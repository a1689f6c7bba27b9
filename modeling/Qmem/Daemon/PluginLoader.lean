import Qmem.Daemon.ServiceManager

/-!
# The plugin loader (`daemon/plugin_loader.c`)

Each call meets its own environment: whether the library opens, what it exports, what the
service's init returns. The table of plugins only grows; an unloaded plugin leaves its entry
behind, with its path and its name. The calls out of the loader are kept in order.
-/

namespace Qmem

open CLib

def maxPlugins : Nat := 64

def pluginApiVersion : Int32 := 1

/-- `qmem_plugin_info_t`, as far as the loader uses it. -/
structure PluginInfo where
  apiVersion : Int32
  name : CStr
  service : Service

/-- What `dlopen` returns; the dynamic linker keeps the file's path with it. -/
structure Handle where
  address : Nat
  path : CStr
deriving DecidableEq

/-- `loaded_plugin_t`. -/
structure LoadedPlugin where
  path : CStr
  name : CStr
  handle : Option Handle
  info : PluginInfo
  service : Service
  mtime : Int64
  loaded : Bool

inductive LoaderCall where
  | dlopen (path : CStr) (handle : Option Handle)
  | dlclose (handle : Handle)
  | service (call : ServiceCall)
deriving DecidableEq

/-- `plugin_loader_t` together with the service manager's registry, and the calls made so far.
`watching` is whether the inotify descriptor is open. -/
structure PluginLoader where
  pluginDir : CStr
  plugins : List LoadedPlugin
  watching : Bool
  registry : Registry
  calls : List LoaderCall

/-- What one load meets: the address and the info symbol of the library if it opens, the result
of the service's init, the file's time. -/
structure LoadEnv where
  library : Option (Nat × Option PluginInfo)
  initRet : Int32
  mtime : Int64

def pluginDirDefault : CStr := CStr.lit "/usr/lib/qmem/plugins"

/-- `plugin_loader_init`, for the directory in the configuration. -/
def pluginLoaderInit (dir : CStr) : PluginLoader where
  pluginDir := (if dir.bytes = [] then pluginDirDefault else dir).cut 511
  plugins := []
  watching := false
  registry := Registry.init
  calls := []

/-! ## Looking up -/

/-- The first entry with `p`, with its index. -/
def findPlugin (s : PluginLoader) (p : LoadedPlugin → Bool) : Option (Nat × LoadedPlugin) :=
  (s.plugins.findIdx? p).bind fun i => (s.plugins[i]?).map fun plugin => (i, plugin)

def findPluginByPath (s : PluginLoader) (path : CStr) : Option (Nat × LoadedPlugin) :=
  findPlugin s fun plugin => plugin.path = path

def findPluginByName (s : PluginLoader) (name : CStr) : Option (Nat × LoadedPlugin) :=
  findPlugin s fun plugin => plugin.name = name

/-- `plugin && plugin->loaded`. -/
def isLoaded (found : Option (Nat × LoadedPlugin)) : Bool := found.any fun p => p.2.loaded

/-! ## Loading and unloading -/

/-- The entry written for a library. -/
def newPlugin (path : CStr) (handle : Handle) (info : PluginInfo) (mtime : Int64) :
    LoadedPlugin where
  path := path.cut 511
  name := info.name.cut 63
  handle := some handle
  info := info
  service := info.service
  mtime := mtime
  loaded := true

/-- The entry goes where one with its path is, or to the end. -/
def storePlugin (s : PluginLoader) (existing : Option (Nat × LoadedPlugin))
    (plugin : LoadedPlugin) : List LoadedPlugin :=
  match existing with
  | some (i, _) => s.plugins.set i plugin
  | none => s.plugins ++ [plugin]

def pluginLoaderLoad (s : PluginLoader) (path : CStr) (env : LoadEnv) : PluginLoader × Int32 :=
  let existing := findPluginByPath s path
  if isLoaded existing then (s, 0)
  else if s.plugins.length ≥ maxPlugins then (s, -1)
  else
    match env.library with
    | none => ({ s with calls := s.calls ++ [.dlopen path none] }, -1)
    | some (address, symbol) =>
      let handle : Handle := ⟨address, path⟩
      let s := { s with calls := s.calls ++ [.dlopen path (some handle)] }
      match symbol with
      | none => ({ s with calls := s.calls ++ [.dlclose handle] }, -1)
      | some info =>
        if info.apiVersion ≠ pluginApiVersion then
          ({ s with calls := s.calls ++ [.dlclose handle] }, -1)
        else if isLoaded (findPluginByName s info.name) then
          ({ s with calls := s.calls ++ [.dlclose handle] }, -1)
        else
          match svcManagerRegister s.registry info.service env.initRet with
          | (registry, calls, ret) =>
            let s := { s with registry, calls := s.calls ++ calls.map LoaderCall.service }
            if ret < 0 then ({ s with calls := s.calls ++ [.dlclose handle] }, -1)
            else
              ({ s with
                plugins := storePlugin s existing (newPlugin path handle info env.mtime) }, 0)

def pluginLoaderUnload (s : PluginLoader) (name : CStr) : PluginLoader × Int32 :=
  match findPluginByName s name with
  | none => (s, -1)
  | some (i, plugin) =>
    if ¬ plugin.loaded then (s, -1)
    else
      match svcManagerUnregister s.registry plugin.service with
      | (registry, calls, _) =>
        ({ s with
          registry
          plugins := s.plugins.set i { plugin with handle := none, loaded := false }
          calls := s.calls ++ calls.map LoaderCall.service ++
            (plugin.handle.map LoaderCall.dlclose).toList }, 0)

/-- Unloading the plugin that is loaded under a path, by its name. -/
def unloadByPath (s : PluginLoader) (path : CStr) : PluginLoader :=
  match findPluginByPath s path with
  | none => s
  | some (_, plugin) => if plugin.loaded then (pluginLoaderUnload s plugin.name).1 else s

def pluginLoaderReload (s : PluginLoader) (path : CStr) (env : LoadEnv) : PluginLoader × Int32 :=
  pluginLoaderLoad (unloadByPath s path) path env

/-! ## The directory and its watcher -/

/-- A name that ends in `.so` with something before it. -/
def isPluginFile (name : CStr) : Bool := 4 ≤ name.length && name.endsWith (.lit ".so")

def pluginPath (s : PluginLoader) (name : CStr) : CStr :=
  (s.pluginDir ++ CStr.lit "/" ++ name).cut 1023

/-- `plugin_loader_load_all` over the entries of the directory (`none` when it cannot be
opened); the result is the number of loads that returned 0. -/
def pluginLoaderLoadAll (s : PluginLoader) (entries : Option (List (CStr × LoadEnv))) :
    PluginLoader × Nat :=
  (entries.getD []).foldl (fun (s, loaded) (name, env) =>
    if isPluginFile name then
      let (s, ret) := pluginLoaderLoad s (pluginPath s name) env
      (s, if ret = 0 then loaded + 1 else loaded)
    else (s, loaded)) (s, 0)

/-- `plugin_loader_start_watcher`; both inotify calls have to succeed. -/
def pluginLoaderStartWatcher (s : PluginLoader) (initOk watchOk : Bool) : PluginLoader × Int32 :=
  if initOk ∧ watchOk then ({ s with watching := true }, 0)
  else ({ s with watching := false }, -1)

/-- `struct inotify_event`; `name` is `none` when its `len` is 0. -/
structure InotifyEvent where
  closeWrite : Bool
  movedTo : Bool
  delete : Bool
  name : Option CStr

/-- The body of the loop of `plugin_loader_check_updates`. -/
def handleEvent (s : PluginLoader) (event : InotifyEvent) (env : LoadEnv) : PluginLoader :=
  match event.name with
  | none => s
  | some name =>
    if isPluginFile name then
      if event.closeWrite || event.movedTo then
        (pluginLoaderReload s (pluginPath s name) env).1
      else if event.delete then unloadByPath s (pluginPath s name)
      else s
    else s

def pluginLoaderCheckUpdates (s : PluginLoader) (events : List (InotifyEvent × LoadEnv)) :
    PluginLoader :=
  if s.watching then events.foldl (fun s e => handleEvent s e.1 e.2) s else s

/-- The body of the loop of `plugin_loader_shutdown`. -/
def shutdownPlugin (s : PluginLoader) (i : Nat) : PluginLoader :=
  match s.plugins[i]? with
  | none => s
  | some plugin => if plugin.loaded then (pluginLoaderUnload s plugin.name).1 else s

def pluginLoaderShutdown (s : PluginLoader) : PluginLoader :=
  (List.range s.plugins.length).foldl shutdownPlugin { s with watching := false }

def pluginLoaderCount (s : PluginLoader) : Nat := s.plugins.countP (·.loaded)

/-- The plugins that are loaded. -/
def loadedPlugins (s : PluginLoader) : List LoadedPlugin := s.plugins.filter (·.loaded)

/-! ## Histories -/

/-- What can happen to the loader. Loading the whole directory is a sequence of loads, and a
check for updates one of events. -/
inductive LoaderAction where
  | load (path : CStr) (env : LoadEnv)
  | unload (name : CStr)
  | reload (path : CStr) (env : LoadEnv)
  | event (event : InotifyEvent) (env : LoadEnv)

def LoaderAction.apply (s : PluginLoader) : LoaderAction → PluginLoader
  | .load path env => (pluginLoaderLoad s path env).1
  | .unload name => (pluginLoaderUnload s name).1
  | .reload path env => (pluginLoaderReload s path env).1
  | .event e env => handleEvent s e env

end Qmem
