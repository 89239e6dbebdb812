import Roxo.Snapshot.Metadata

/-!
# Paths

The operations on paths that the server uses, by components. A leading `.` is a component of a
relative path, any other `.` is dropped when a text is read as a path; `..` is a component.
-/

namespace Roxo

/-- `str::ends_with`. -/
def endsWith (s suffix : String) : Bool := suffix.toList.isSuffixOf s.toList

/-- If the string ends with the suffix, the portion of the string before it. -/
def matchTrailing (input suffix : String) : Option String :=
  if endsWith input suffix then
    some (String.ofList (input.toList.take (input.toList.length - suffix.toList.length)))
  else none

theorem endsWith_iff {s suffix : String} : endsWith s suffix = true ↔ ∃ t, s = t ++ suffix := by
  unfold endsWith
  rw [List.isSuffixOf_iff_suffix]
  constructor
  · rintro ⟨t, ht⟩
    refine ⟨String.ofList t, String.toList_inj.mp ?_⟩
    rw [String.toList_append, String.toList_ofList, ht]
  · rintro ⟨t, rfl⟩
    exact ⟨t.toList, by rw [String.toList_append]⟩

theorem matchTrailing_append (t suffix : String) : matchTrailing (t ++ suffix) suffix = some t := by
  have hends : endsWith (t ++ suffix) suffix = true := endsWith_iff.mpr ⟨t, rfl⟩
  unfold matchTrailing
  rw [if_pos hends]
  simp

namespace PathBuf

/-- The pieces of a text between its separators. -/
def splitSeparators : List Char → List (List Char)
  | [] => [[]]
  | c :: cs =>
    if c = '/' then [] :: splitSeparators cs
    else
      match splitSeparators cs with
      | [] => [[c]]
      | piece :: pieces => (c :: piece) :: pieces

/-- The path that a text denotes. -/
def ofString (s : String) : PathBuf :=
  let pieces := (splitSeparators s.toList).map String.ofList
  let names := pieces.filter fun piece => piece ≠ "" ∧ piece ≠ "."
  if s.toList.head? = some '/' then ⟨true, names⟩
  else if pieces.head? = some "." then ⟨false, "." :: names⟩
  else ⟨false, names⟩

def display (path : PathBuf) : String :=
  (if path.absolute then "/" else "") ++ "/".intercalate path.components

/-- The path without its last component. -/
def parent (path : PathBuf) : Option PathBuf :=
  if path.components = [] then none
  else some { path with components := path.components.dropLast }

/-- The path, its parent, the parent of that and so on. -/
def ancestors (path : PathBuf) : List PathBuf :=
  path.components.inits.reverse.map fun components => { path with components := components }

/-- The last component, if it is a name. -/
def fileName (path : PathBuf) : Option String :=
  match path.components.getLast? with
  | some component => if component = ".." ∨ component = "." then none else some component
  | none => none

/-- A name without what follows its last dot. A leading dot starts no extension. -/
def stemOf (name : String) : String :=
  let chars := name.toList.reverse
  let stem := (chars.dropWhile (· ≠ '.')).drop 1
  if stem = [] then name else String.ofList stem.reverse

def fileStem (path : PathBuf) : Option String := path.fileName.map stemOf

/-- `Path::join`: an absolute path takes the place of the first one. -/
def join (path suffix : PathBuf) : PathBuf :=
  if suffix.absolute then suffix
  else if path.components = [] ∧ path.absolute = false then suffix
  else { path with components := path.components ++ suffix.components.filter (· ≠ ".") }

/-- `Path::join` with a text. -/
def joinStr (path : PathBuf) (suffix : String) : PathBuf := path.join (ofString suffix)

/-- `Path::with_file_name`. -/
def withFileName (path : PathBuf) (name : String) : PathBuf :=
  if path.fileName.isSome then { path with components := path.components.dropLast }.joinStr name
  else path.joinStr name

/-- `Path::strip_prefix`. Every path starts with the empty one. -/
def stripPrefix (path base : PathBuf) : Option PathBuf :=
  if base.absolute = false ∧ base.components = [] then some path
  else if path.absolute = base.absolute then
    (base.components.isPrefixOf? path.components).map fun components => ⟨false, components⟩
  else none

/-! ## Names in a path -/

/-- The components of a path other than those that stand for the directory itself. -/
def named (path : PathBuf) : List String := path.components.filter (· ≠ ".")

/-- The pieces of a text that name something when it is read as a path. -/
def pieces (s : String) : List String :=
  ((splitSeparators s.toList).map String.ofList).filter fun piece => piece ≠ "" ∧ piece ≠ "."

/-- The text is a name when it is read as a path. -/
structure IsName (s : String) : Prop where
  separator : '/' ∉ s.toList
  ne_empty : s ≠ ""
  ne_dot : s ≠ "."
  ne_parent : s ≠ ".."

theorem splitSeparators_of_not_mem {chars : List Char} (h : '/' ∉ chars) :
    splitSeparators chars = [chars] := by
  induction chars with
  | nil => rfl
  | cons c cs ih =>
    rw [List.mem_cons, not_or] at h
    unfold splitSeparators
    rw [if_neg (Ne.symm h.1), ih h.2]

theorem pieces_of_name {s : String} (h : IsName s) : pieces s = [s] := by
  unfold pieces
  rw [splitSeparators_of_not_mem h.separator, List.map_singleton, String.ofList_toList,
    List.filter_singleton, decide_eq_true ⟨h.ne_empty, h.ne_dot⟩]
  rfl

theorem absolute_ofString (s : String) :
    (ofString s).absolute = true ↔ s.toList.head? = some '/' := by
  unfold ofString
  dsimp only
  split_ifs with habs <;> simp [habs]

theorem named_ofString (s : String) : (ofString s).named = pieces s := by
  have hpieces : ((pieces s).filter fun piece => piece ≠ ".") = pieces s := by
    rw [List.filter_eq_self]
    intro piece hmem
    exact (decide_eq_true_iff.mpr (of_decide_eq_true (List.mem_filter.mp hmem).2).2)
  unfold ofString named
  dsimp only
  split_ifs
  · exact hpieces
  · rw [List.filter_cons_of_neg (by simp)]
    exact hpieces
  · exact hpieces

/-- A name is a component by itself. -/
theorem ofString_of_name {s : String} (h : IsName s) : ofString s = ⟨false, [s]⟩ := by
  have habs : s.toList.head? ≠ some '/' := fun hhead => h.separator (List.mem_of_mem_head? hhead)
  have hdot : s ≠ "." := h.ne_dot
  have hnames := pieces_of_name h
  unfold pieces at hnames
  unfold ofString
  dsimp only
  rw [if_neg habs, hnames, splitSeparators_of_not_mem h.separator, List.map_singleton,
    String.ofList_toList, if_neg (by simpa using hdot)]

theorem fileName_joinStr_of_name (dir : PathBuf) {s : String} (h : IsName s) :
    (dir.joinStr s).fileName = some s := by
  have hlast : (dir.joinStr s).components.getLast? = some s := by
    have hkeep : [s].filter (fun component => component ≠ ".") = [s] := by
      rw [List.filter_singleton, decide_eq_true h.ne_dot]
      rfl
    unfold joinStr join
    rw [ofString_of_name h, if_neg Bool.false_ne_true]
    by_cases hempty : dir.components = [] ∧ dir.absolute = false
    · rw [if_pos hempty]
      rfl
    · rw [if_neg hempty]
      dsimp only
      rw [hkeep]
      exact List.getLast?_concat
  unfold fileName
  rw [hlast]
  exact if_neg (not_or.mpr ⟨h.ne_parent, h.ne_dot⟩)

theorem absolute_joinStr (dir : PathBuf) (s : String) :
    (dir.joinStr s).absolute = ((ofString s).absolute || dir.absolute) := by
  unfold joinStr join
  split_ifs with habs hempty
  · rw [habs]
    rfl
  · rw [hempty.2, Bool.or_false]
  · rw [Bool.not_eq_true] at habs
    rw [habs, Bool.false_or]

theorem named_joinStr (dir : PathBuf) (s : String) :
    (dir.joinStr s).named =
      if (ofString s).absolute then pieces s else dir.named ++ pieces s := by
  unfold joinStr join
  split_ifs with habs hempty
  · exact named_ofString s
  · have hdir : dir.named = [] := by
      unfold named
      rw [hempty.1]
      rfl
    rw [hdir, List.nil_append]
    exact named_ofString s
  · rw [← named_ofString]
    unfold named
    dsimp only
    rw [List.filter_append, List.filter_filter]
    simp only [Bool.and_self]

end PathBuf

end Roxo
