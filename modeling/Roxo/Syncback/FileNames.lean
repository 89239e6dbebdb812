import Roxo.SnapshotMiddleware.Environment
import Roxo.Snapshot.Tree
import Roxo.Vfs.Path

/-!
# File names

The names that syncback gives to files and directories.
-/

namespace Roxo

/-- This particular middleware would become a directory. -/
def Middleware.isDir : Middleware → Bool
  | .dir | .serverScriptDir | .clientScriptDir | .pluginScriptDir | .moduleScriptDir
  | .csvDir => true
  | _ => false

/-- The extension a middleware is supposed to use. The others are not for syncback. -/
def extensionForMiddleware : Middleware → Fallible String
  | .csv => .ok "csv"
  | .jsonModel => .ok "model.json"
  | .json => .ok "json"
  | .serverScript => .ok "server.luau"
  | .clientScript => .ok "client.luau"
  | .moduleScript => .ok "luau"
  | .pluginScript => .ok "plugin.luau"
  | .project => .ok "project.json"
  | .rbxm => .ok "rbxm"
  | .rbxmx => .ok "rbxmx"
  | .toml => .ok "toml"
  | .text => .ok "txt"
  | .yaml => .ok "yml"
  | .legacyServerScript | .legacyClientScript | .runContextServerScript
  | .runContextClientScript => .error .panic
  | .ignore => .error .panic
  | .dir | .csvDir | .serverScriptDir | .clientScriptDir | .pluginScriptDir
  | .moduleScriptDir => .error .panic

/-- A list of file names that are not valid on Windows. -/
def invalidWindowsNames : List String :=
  ["CON", "PRN", "AUX", "NUL", "COM1", "COM2", "COM3", "COM4", "COM5", "COM6", "COM7", "COM8",
    "COM9", "LPT1", "LPT2", "LPT3", "LPT4", "LPT5", "LPT6", "LPT7", "LPT8", "LPT9"]

/-- The characters that are outright forbidden in a file name. -/
def forbiddenChars : List Char := ['<', '>', ':', '"', '/', '|', '?', '*', '\\']

/-- `char::is_control`. -/
def isControl (c : Char) : Bool := c.toNat < 0x20 || (0x7f ≤ c.toNat && c.toNat < 0xa0)

/-- The loop over the characters of a file name. -/
def validateChars : List Char → Fallible Unit
  | [] => .ok ()
  | c :: cs =>
    if c ∈ forbiddenChars then
      Fallible.bail "file names cannot contain <, >, :, \", /, |, ?, *, or \\"
    else if isControl c then Fallible.bail "file names cannot contain control characters"
    else validateChars cs

/-- Validates a file name to ensure it's allowed on the file system. -/
def validateFileName (name : String) : Fallible Unit :=
  if endsWith name " " then Fallible.bail "file names cannot end with a space"
  else if endsWith name "." then Fallible.bail "file names cannot end with '.'"
  else do
    validateChars name.toList
    if name ∈ invalidWindowsNames then Fallible.bail s!"files cannot be named {name}" else .ok ()

/-- The file name for an instance: the one that it has, or else one made of its name. -/
def nameForInst (middleware : Middleware) (newInst : Instance)
    (oldInst : Option InstanceWithMeta) : Fallible String :=
  match oldInst with
  | some oldInst =>
    match oldInst.metadata.relevantPaths.head? with
    | some source =>
      Fallible.context "sources on the file system should be valid unicode and not be stubs"
        source.fileName
    | none =>
      let name := oldInst.inst.name
      Fallible.bail ("members of 'old' trees should have an instigating source. Somehow, " ++
        s!"{name} did not.")
  | none =>
    if middleware.isDir then .ok newInst.name
    else do
      let extension ← extensionForMiddleware middleware
      let name := newInst.name
      Fallible.withContext s!"name '{name}' is not legal to write to the file system"
        (validateFileName name)
      .ok (name ++ "." ++ extension)

/-! ## Names that are given -/

theorem validateChars_eq_ok {chars : List Char} :
    validateChars chars = .ok () ↔ ∀ c ∈ chars, c ∉ forbiddenChars ∧ isControl c = false := by
  induction chars with
  | nil => exact ⟨fun _ _ hc => absurd hc List.not_mem_nil, fun _ => rfl⟩
  | cons c cs ih =>
    unfold validateChars
    rw [List.forall_mem_cons, ← ih]
    split_ifs with hforbidden hcontrol
    · exact ⟨nofun, fun h => absurd hforbidden h.1.1⟩
    · exact ⟨nofun, fun h => absurd (hcontrol.symm.trans h.1.2) nofun⟩
    · exact ⟨fun h => ⟨⟨hforbidden, Bool.eq_false_iff.mpr hcontrol⟩, h⟩, And.right⟩

theorem validateFileName_eq_ok {name : String} : validateFileName name = .ok () ↔
    endsWith name " " = false ∧ endsWith name "." = false ∧
      (∀ c ∈ name.toList, c ∉ forbiddenChars ∧ isControl c = false) ∧
      name ∉ invalidWindowsNames := by
  have hrest : (do
      validateChars name.toList
      if name ∈ invalidWindowsNames then Fallible.bail s!"files cannot be named {name}"
      else .ok ()) = Except.ok () ↔
      validateChars name.toList = .ok () ∧ name ∉ invalidWindowsNames := by
    rw [Except.bind_eq_ok]
    constructor
    · rintro ⟨_, hchars, hname⟩
      refine ⟨hchars, fun hmem => ?_⟩
      rw [if_pos hmem] at hname
      cases hname
    · rintro ⟨hchars, hmem⟩
      exact ⟨(), hchars, if_neg hmem⟩
  unfold validateFileName
  rw [← validateChars_eq_ok]
  by_cases hspace : endsWith name " " = true
  · rw [if_pos hspace]
    exact ⟨nofun, fun h => absurd (hspace.symm.trans h.1) nofun⟩
  · by_cases hdot : endsWith name "." = true
    · rw [if_neg hspace, if_pos hdot]
      exact ⟨nofun, fun h => absurd (hdot.symm.trans h.2.1) nofun⟩
    · rw [if_neg hspace, if_neg hdot, hrest]
      exact ⟨fun h => ⟨Bool.eq_false_iff.mpr hspace, Bool.eq_false_iff.mpr hdot, h⟩,
        fun h => h.2.2⟩

theorem separator_not_mem {name : String} (h : validateFileName name = .ok ()) :
    '/' ∉ name.toList := by
  intro hmem
  exact ((validateFileName_eq_ok.mp h).2.2.1 _ hmem).1 (by decide)

/-- The middlewares that are not directories and whose files syncback can name. -/
def extensions : List (Middleware × String) :=
  [(.csv, "csv"), (.jsonModel, "model.json"), (.json, "json"), (.serverScript, "server.luau"),
    (.clientScript, "client.luau"), (.moduleScript, "luau"), (.pluginScript, "plugin.luau"),
    (.project, "project.json"), (.rbxm, "rbxm"), (.rbxmx, "rbxmx"), (.toml, "toml"),
    (.text, "txt"), (.yaml, "yml")]

theorem extensionForMiddleware_eq_ok {middleware : Middleware} {extension : String} :
    extensionForMiddleware middleware = .ok extension ↔ (middleware, extension) ∈ extensions := by
  cases middleware <;> simp [extensionForMiddleware, extensions, eq_comm]

/-- What the file name of an instance is made of. -/
theorem nameForInst_eq_ok {middleware : Middleware} {newInst : Instance}
    {oldInst : Option InstanceWithMeta} {name : String}
    (h : nameForInst middleware newInst oldInst = .ok name) :
    (∃ old source, oldInst = some old ∧ old.metadata.relevantPaths.head? = some source ∧
      source.fileName = some name) ∨
    (oldInst = none ∧ middleware.isDir = true ∧ name = newInst.name) ∨
    (oldInst = none ∧ middleware.isDir = false ∧ ∃ extension,
      (middleware, extension) ∈ extensions ∧ validateFileName newInst.name = .ok () ∧
        name = newInst.name ++ "." ++ extension) := by
  cases oldInst with
  | some old =>
    unfold nameForInst at h
    dsimp only at h
    cases hsource : old.metadata.relevantPaths.head? with
    | none =>
      rw [hsource] at h
      cases h
    | some source =>
      rw [hsource] at h
      exact Or.inl ⟨old, source, rfl, hsource, Fallible.context_eq_ok.mp h⟩
  | none =>
    right
    unfold nameForInst at h
    dsimp only at h
    split_ifs at h with hdir
    · exact Or.inl ⟨rfl, hdir, (Except.ok.inj h).symm⟩
    · right
      obtain ⟨extension, hextension, h⟩ := Except.bind_eq_ok.mp h
      obtain ⟨_, hvalid, h⟩ := Except.bind_eq_ok.mp h
      exact ⟨rfl, Bool.eq_false_iff.mpr hdir, extension,
        extensionForMiddleware_eq_ok.mp hextension, Fallible.withContext_eq_ok.mp hvalid,
        (Except.ok.inj h).symm⟩

/-- An extension ends in something other than a dot, and has no separator. -/
theorem extensions_spec : ∀ e ∈ extensions,
    '/' ∉ e.2.toList ∧ e.2.toList ≠ [] ∧ e.2.toList.getLast? ≠ some '.' := by decide

/-- A validated name with an extension is a name. -/
theorem isName_of_extension {middleware : Middleware} {name extension : String}
    (hext : (middleware, extension) ∈ extensions) (hvalid : validateFileName name = .ok ()) :
    PathBuf.IsName (name ++ "." ++ extension) := by
  obtain ⟨hsep, hne, hlast⟩ := extensions_spec _ hext
  have hchars : (name ++ "." ++ extension).toList = name.toList ++ ['.'] ++ extension.toList := by
    rw [String.toList_append, String.toList_append]
    rfl
  have hend : (name ++ "." ++ extension).toList.getLast? ≠ some '.' := by
    rw [hchars, List.getLast?_append_of_ne_nil _ hne]
    exact hlast
  refine ⟨?_, ?_, ?_, ?_⟩
  · rw [hchars, List.mem_append, List.mem_append, not_or, not_or]
    exact ⟨⟨separator_not_mem hvalid, by decide⟩, hsep⟩
  · intro h
    rw [h] at hchars
    have hnil : ([] : List Char) = name.toList ++ ['.'] ++ extension.toList := hchars
    exact absurd hnil (by simp)
  · intro h
    rw [h] at hend
    exact hend (by decide)
  · intro h
    rw [h] at hend
    exact hend (by decide)

end Roxo
