import Roxo.Syncback.FileNames
import Roxo.Syncback.PropertyFilter

/-!
# Syncback snapshots

A `SyncbackSnapshot` pairs an instance of the new DOM with the instance of the old tree that it
takes the place of, if there is one, and with the path that it is written to.
-/

namespace Roxo

open WeakDom

structure SyncbackData (D : Type) where
  oldTree : RojoTree D
  newTree : D
  /-- The syncback rules of the project. -/
  rules : Option SyncbackRules
  /-- The environment variable `ROJO_SYNCBACK_DEBUG`, which overrides the middleware of models. -/
  debugModelFormat : Option String

structure SyncbackSnapshot (D : Type) where
  data : SyncbackData D
  old : Option Ref
  new : Ref
  path : PathBuf
  middleware : Option Middleware

/-- The classes that are written as JSON models. -/
def jsonModelClasses : List String :=
  ["Actor", "Sound", "SoundGroup", "Sky", "Atmosphere", "BloomEffect", "BlurEffect",
    "ColorCorrectionEffect", "DepthOfFieldEffect", "SunRaysEffect", "ParticleEmitter",
    "TextChannel", "TextChatCommand", "ChatWindowConfiguration", "ChatInputBarConfiguration",
    "BubbleChatConfiguration", "ChannelTabsConfiguration", "RemoteEvent", "UnreliableRemoteEvent",
    "RemoteFunction", "BindableEvent", "BindableFunction"]

def middlewareForClass (className : String) : Middleware :=
  if className ∈ jsonModelClasses then .jsonModel
  else if className ∈ ["Folder", "Configuration", "Tool"] then .dir
  else if className = "StringValue" then .text
  else if className = "Script" then .serverScript
  else if className = "LocalScript" then .clientScript
  else if className = "ModuleScript" then .moduleScript
  else if className = "LocalizationTable" then .csv
  else if endsWith className "Value" then .jsonModel
  else .rbxm

/-- The middleware for an instance that has children. -/
def middlewareWithChildren : Middleware → Middleware
  | .serverScript => .serverScriptDir
  | .clientScript => .clientScriptDir
  | .pluginScript => .pluginScriptDir
  | .moduleScript => .moduleScriptDir
  | .csv => .csvDir
  | .jsonModel | .text => .dir
  | middleware => middleware

def modelMiddleware (debugModelFormat : Option String) : Middleware :=
  if debugModelFormat = some "1" then .rbxmx
  else if debugModelFormat = some "2" then .jsonModel
  else .rbxm

/-- The middleware for an instance that has none yet. -/
def newMiddleware (debugModelFormat : Option String) (inst : Instance) : Middleware :=
  let middleware := middlewareForClass inst.className
  let middleware :=
    if inst.children ≠ [] then middlewareWithChildren middleware else middleware
  if middleware = .rbxm then modelMiddleware debugModelFormat else middleware

namespace SyncbackSnapshot

variable {D : Type} [WeakDom D]

/-- The 'old' instance this snapshot is for, if it exists. -/
def oldInst (snapshot : SyncbackSnapshot D) : Fallible (Option InstanceWithMeta) :=
  match snapshot.old with
  | some old => Fallible.unwrap (snapshot.data.oldTree.getInstance old)
  | none => .ok none

/-- The 'new' instance this snapshot is for. -/
def newInst (snapshot : SyncbackSnapshot D) : Fallible Instance :=
  Fallible.unwrap (getByRef snapshot.data.newTree snapshot.new)

def getBestMiddleware (snapshot : SyncbackSnapshot D) : Fallible Middleware := do
  let oldInst ← snapshot.oldInst
  let inst ← snapshot.newInst
  match snapshot.middleware, oldInst.bind (·.metadata.middleware) with
  | some overrideMiddleware, _ => .ok overrideMiddleware
  | none, some oldMiddleware => .ok oldMiddleware
  | none, none => .ok (newMiddleware snapshot.data.debugModelFormat inst)

/-- A snapshot with the given path. -/
def withNewPath (snapshot : SyncbackSnapshot D) (path : PathBuf) (newRef : Ref)
    (oldRef : Option Ref) : SyncbackSnapshot D :=
  ⟨snapshot.data, oldRef, newRef, path, none⟩

/-- A snapshot of an instance in the directory of this one. -/
def withJoinedPath (snapshot : SyncbackSnapshot D) (newRef : Ref) (oldRef : Option Ref) :
    Fallible (SyncbackSnapshot D) := do
  let joined := snapshot.withNewPath ⟨false, []⟩ newRef oldRef
  let middleware ← joined.getBestMiddleware
  let newInst ← joined.newInst
  let oldInst ← joined.oldInst
  let name ← nameForInst middleware newInst oldInst
  .ok { joined with path := snapshot.path.joinStr name }

/-- A snapshot of an instance in the directory of another one is at the name of the instance. -/
theorem withJoinedPath_eq_ok {snapshot child : SyncbackSnapshot D} {newRef : Ref}
    {oldRef : Option Ref} (h : snapshot.withJoinedPath newRef oldRef = .ok child) :
    ∃ middleware inst oldInst name,
      child = ⟨snapshot.data, oldRef, newRef, snapshot.path.joinStr name, none⟩ ∧
      child.getBestMiddleware = .ok middleware ∧ child.newInst = .ok inst ∧
      child.oldInst = .ok oldInst ∧ nameForInst middleware inst oldInst = .ok name := by
  unfold withJoinedPath at h
  obtain ⟨middleware, hmiddleware, h⟩ := Except.bind_eq_ok.mp h
  obtain ⟨inst, hinst, h⟩ := Except.bind_eq_ok.mp h
  obtain ⟨oldInst, hold, h⟩ := Except.bind_eq_ok.mp h
  obtain ⟨name, hname, h⟩ := Except.bind_eq_ok.mp h
  obtain rfl := Except.ok.inj h
  exact ⟨middleware, inst, oldInst, name, rfl, hmiddleware, hinst, hold, hname⟩

/-- Without an old instance the class and the children decide. -/
theorem getBestMiddleware_new {snapshot : SyncbackSnapshot D} {inst : Instance}
    {middleware : Middleware} (hoverride : snapshot.middleware = none)
    (hinst : snapshot.newInst = .ok inst) (hold : snapshot.oldInst = .ok none)
    (h : snapshot.getBestMiddleware = .ok middleware) :
    middleware = newMiddleware snapshot.data.debugModelFormat inst := by
  unfold getBestMiddleware at h
  rw [hold, hinst, hoverride] at h
  exact (Except.ok.inj h).symm

end SyncbackSnapshot

/-- What `Middleware::syncback` demands of the path before anything is written. -/
def checkPath (path : PathBuf) : Fallible Unit :=
  match path.fileName with
  | some fileName =>
    Fallible.withContext s!"cannot create a file or directory with name {fileName}"
      (validateFileName fileName)
  | none => .ok ()

end Roxo
