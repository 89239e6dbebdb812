import Roxo.Vfs.Path

/-!
# The virtual filesystem

A `Vfs` is what the operations of its backend answer at one moment. Nothing is assumed of the
answers; what the operating system promises about canonical paths is `Vfs.Lawful`.
-/

namespace Roxo

/-- `io::ErrorKind`, as far as the server tells the kinds apart. -/
inductive ErrorKind where
  | notFound
  | invalidData
  | other
  deriving DecidableEq, Repr

/-- `io::Error`. -/
structure IoError where
  kind : ErrorKind
  message : String
  deriving DecidableEq, Repr

/-- What is at a path: a file or a directory. -/
structure Metadata where
  isFile : Bool
  deriving DecidableEq, Repr

def Metadata.isDir (metadata : Metadata) : Bool := !metadata.isFile

structure Vfs where
  metadata : PathBuf → Except IoError Metadata
  read : PathBuf → Except IoError (List UInt8)
  /-- The paths of the entries, each of which may fail. -/
  readDir : PathBuf → Except IoError (List (Except IoError PathBuf))
  canonicalize : PathBuf → Except IoError PathBuf

inductive VfsEvent where
  | create (path : PathBuf)
  | write (path : PathBuf)
  | remove (path : PathBuf)
  deriving DecidableEq, Repr

/-- A result with an error of the kind `notFound` taken out. -/
def withNotFound {α : Type} : Except IoError α → Except IoError (Option α)
  | .ok v => .ok (some v)
  | .error err => if err.kind = .notFound then .ok none else .error err

theorem withNotFound_eq_some {α : Type} {x : Except IoError α} {v : α} :
    withNotFound x = .ok (some v) ↔ x = .ok v := by
  unfold withNotFound
  cases x with
  | ok w => simp only [Except.ok.injEq, Option.some.injEq]
  | error err =>
    dsimp only
    split_ifs <;> exact ⟨nofun, nofun⟩

namespace Vfs

/-- The text of a file. -/
def readToString (vfs : Vfs) (path : PathBuf) : Except IoError String := do
  let contents ← vfs.read path
  match String.fromUTF8? ⟨contents.toArray⟩ with
  | some text => .ok text
  | none => .error ⟨.invalidData, s!"File was not valid UTF-8: {path.display}"⟩

/-- Every `\r\n` replaced by `\n`. -/
def lfNormalized : List Char → List Char
  | '\r' :: '\n' :: cs => '\n' :: lfNormalized cs
  | c :: cs => c :: lfNormalized cs
  | [] => []

def readToStringLfNormalized (vfs : Vfs) (path : PathBuf) : Except IoError String := do
  let contents ← vfs.readToString path
  .ok (String.ofList (lfNormalized contents.toList))

/-- What an operating system promises about canonical paths: they are absolute and without `..`,
their own canonical paths, and so are the paths above them. -/
structure Lawful (vfs : Vfs) : Prop where
  canonical : ∀ {path path' : PathBuf}, vfs.canonicalize path = .ok path' →
    vfs.canonicalize path' = .ok path'
  normal : ∀ {path path' : PathBuf}, vfs.canonicalize path = .ok path' →
    path'.absolute = true ∧ ".." ∉ path'.components ∧ "." ∉ path'.components
  parent : ∀ {path above : PathBuf}, vfs.canonicalize path = .ok path → path.parent = some above →
    vfs.canonicalize above = .ok above

/-- What an operating system promises about places: what is at a path lies in a directory, and what
is read is a file. -/
structure Nested (vfs : Vfs) : Prop where
  parent : ∀ {path above : PathBuf} {metadata : Metadata}, vfs.metadata path = .ok metadata →
    path.parent = some above → vfs.metadata above = .ok ⟨false⟩
  top : ∀ {path : PathBuf} {metadata : Metadata}, vfs.metadata path = .ok metadata →
    path.parent = none → metadata = ⟨false⟩
  file : ∀ {path : PathBuf} {contents : List UInt8}, vfs.read path = .ok contents →
    vfs.metadata path = .ok ⟨true⟩

end Vfs

end Roxo
