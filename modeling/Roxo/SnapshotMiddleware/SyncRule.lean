import Roxo.SnapshotMiddleware.Environment

/-!
# Sync rules

Which middleware turns a file into an instance, and under which name: the rules of the project
first, then the default ones, in order. Rules that ignore paths are evaluated so that the last
match wins.
-/

namespace Roxo

variable [Environment]

def IgnorableGlob.isMatch (glob : IgnorableGlob) (path : PathBuf) : Bool :=
  Environment.isMatch glob.glob path

namespace PathIgnoreRule

def pathMatches (rule : PathIgnoreRule) (path : PathBuf) : Bool :=
  match path.stripPrefix rule.basePath with
  | some suffix => rule.glob.isMatch suffix
  | none => false

end PathIgnoreRule

/-- The last rule that matches the path decides. -/
def isPathIgnored (rules : List PathIgnoreRule) (path : PathBuf) : Bool :=
  rules.foldl (fun ignored rule =>
    if rule.pathMatches path then !rule.glob.negated else ignored) false

namespace SyncRule

def pathMatches (rule : SyncRule) (path : PathBuf) : Bool :=
  match path.stripPrefix rule.basePath with
  | some suffix =>
    if rule.excludeGlob.any fun pattern => Environment.isMatch pattern suffix then false
    else Environment.isMatch rule.includeGlob suffix
  | none => false

omit [Environment] in
/-- The name that the rule gives the instance of a file. -/
def fileNameForPath (rule : SyncRule) (path : PathBuf) : Fallible String :=
  match rule.suffix with
  | some suffix => do
    let fileName ← Fallible.context s!"file name of {path.display} is invalid" path.fileName
    .ok ((matchTrailing fileName suffix).getD fileName)
  | none => Fallible.context s!"file name of {path.display} is invalid" path.fileStem

end SyncRule

/-- The first rule of the project that matches the path. -/
def InstanceContext.getUserSyncRule (context : InstanceContext) (path : PathBuf) :
    Option SyncRule := context.syncRules.find? fun rule => rule.pathMatches path

omit [Environment] in
def syncRule (pattern : String) (middleware : Middleware) (suffix excludePattern : Option String) :
    SyncRule where
  middleware := middleware
  includeGlob := ⟨pattern⟩
  excludeGlob := excludePattern.map Glob.mk
  suffix := suffix
  basePath := ⟨false, []⟩

omit [Environment] in
def defaultSyncRules : List SyncRule :=
  [ syncRule "*.server.lua" .serverScript (some ".server.lua") none,
    syncRule "*.server.luau" .serverScript (some ".server.luau") none,
    syncRule "*.client.lua" .clientScript (some ".client.lua") none,
    syncRule "*.client.luau" .clientScript (some ".client.luau") none,
    syncRule "*.plugin.lua" .pluginScript (some ".plugin.lua") none,
    syncRule "*.plugin.luau" .pluginScript (some ".plugin.luau") none,
    syncRule "*.\x7blua,luau\x7d" .moduleScript none none,
    syncRule "*.project.json" .project (some ".project.json") none,
    syncRule "*.project.jsonc" .project (some ".project.jsonc") none,
    syncRule "*.model.json" .jsonModel (some ".model.json") none,
    syncRule "*.model.jsonc" .jsonModel (some ".model.jsonc") none,
    syncRule "*.json" .json (some ".json") (some "*.meta.json"),
    syncRule "*.jsonc" .json (some ".jsonc") (some "*.meta.jsonc"),
    syncRule "*.toml" .toml none none,
    syncRule "*.csv" .csv none none,
    syncRule "*.txt" .text none none,
    syncRule "*.rbxmx" .rbxmx none none,
    syncRule "*.rbxm" .rbxm none none,
    syncRule "*.\x7byml,yaml\x7d" .yaml none none ]

end Roxo
