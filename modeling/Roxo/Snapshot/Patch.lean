import Roxo.Snapshot.Tree

/-!
# Patches

The data of a patch before and after it is applied, and the reading of the attributes that name
instances by user-specified ids, which computing and applying a patch share.
-/

namespace Roxo

open AssocMap

/-- An instance that is to be added to the tree. -/
structure PatchAdd where
  parentId : Ref
  inst : InstanceSnapshot

/-- What is to change about an instance. A property assigned to `none` has been removed. -/
structure PatchUpdate where
  id : Ref
  changedName : Option String
  changedClassName : Option String
  changedProperties : UstrMap (Option Variant)
  changedMetadata : Option InstanceMetadata
  deriving DecidableEq

/-- A set of different kinds of patches that can be applied to a tree. -/
structure PatchSet where
  removedInstances : List Ref
  addedInstances : List PatchAdd
  updatedInstances : List PatchUpdate

def PatchSet.new : PatchSet := ⟨[], [], []⟩

/-- What happened to an instance when a patch was applied. -/
structure AppliedPatchUpdate where
  id : Ref
  changedName : Option String
  changedClassName : Option String
  changedProperties : UstrMap (Option Variant)
  changedMetadata : Option InstanceMetadata
  deriving DecidableEq

def AppliedPatchUpdate.new (id : Ref) : AppliedPatchUpdate := ⟨id, none, none, ∅, none⟩

/-- What happened when a patch was applied, to be sent to a synchronized tree. -/
structure AppliedPatchSet where
  removed : List Ref
  added : List Ref
  updated : List AppliedPatchUpdate
  deriving DecidableEq

namespace AppliedPatchSet

def new : AppliedPatchSet := ⟨[], [], []⟩

def isEmpty (set : AppliedPatchSet) : Bool :=
  set.removed.isEmpty && set.added.isEmpty && set.updated.isEmpty

end AppliedPatchSet

/-! ## Ids in attributes -/

/-- `str::strip_prefix`. -/
def stripPrefix (pre s : String) : Option String :=
  (pre.toList.isPrefixOf? s.toList).map String.ofList

theorem stripPrefix_inj {pre s s' k : String} (h : stripPrefix pre s = some k)
    (h' : stripPrefix pre s' = some k) : s = s' := by
  unfold stripPrefix at h h'
  obtain ⟨l, hl, rfl⟩ := Option.map_eq_some_iff.mp h
  obtain ⟨l', hl', heq⟩ := Option.map_eq_some_iff.mp h'
  rw [String.ofList_inj.mp heq] at hl'
  rw [List.isPrefixOf?_eq_some_iff_append_eq] at hl hl'
  exact String.toList_inj.mp (hl.symm.trans hl')

/-- The text of an attribute that is a string or valid UTF-8. -/
def attributeString : Variant → Option String
  | .string s => some s
  | .binaryString bytes => String.fromUTF8? ⟨bytes.toArray⟩
  | _ => none

/-- The attributes of a property map, in the order of iteration. A map has a key once; of a list
that has it twice the last entry counts. -/
def attributesOf (properties : UstrMap Variant) : List (String × Variant) :=
  match properties.lookup "Attributes" with
  | some (.attributes attributes) => attributes.pwFilter fun a b => a.1 ≠ b.1
  | _ => []

/-- The `Ref` properties that the attributes set, with the ids they point to. -/
def refPointers (attributes : List (String × Variant)) : List (String × String) :=
  attributes.filterMap fun (attrName, attrValue) => do
    let propName ← stripPrefix refPointerAttributePrefix attrName
    let target ← attributeString attrValue
    some (propName, target)

/-- The id that the attributes give their own instance. -/
def attributeId (attributes : List (String × Variant)) : Option RojoRef :=
  attributes.foldl (fun attrId (attrName, attrValue) =>
    if attrName = refIdAttributeName then
      match attributeString attrValue with
      | some id => some ⟨id⟩
      | none => attrId
    else attrId) none

/-- The `Ref` properties that the attributes of an instance set. -/
def pointersOf (properties : UstrMap Variant) : List (String × String) :=
  refPointers (attributesOf properties)

/-- No property is set twice. -/
theorem nodup_pointersOf (properties : UstrMap Variant) :
    ((pointersOf properties).map Prod.fst).Nodup := by
  have hpw : (attributesOf properties).Pairwise fun a b => a.1 ≠ b.1 := by
    unfold attributesOf
    split
    · exact List.pairwise_pwFilter _
    · exact List.Pairwise.nil
  unfold pointersOf refPointers
  rw [List.Nodup, List.pairwise_map, List.pairwise_filterMap]
  refine hpw.imp ?_
  rintro ⟨a, v⟩ ⟨b, w⟩ hne ⟨k, s⟩ hk ⟨k', s'⟩ hk' rfl
  obtain ⟨p, hp, hk⟩ := Option.bind_eq_some_iff.mp hk
  obtain ⟨p', hp', hk'⟩ := Option.bind_eq_some_iff.mp hk'
  obtain ⟨_, -, hk⟩ := Option.bind_eq_some_iff.mp hk
  obtain ⟨_, -, hk'⟩ := Option.bind_eq_some_iff.mp hk'
  obtain ⟨rfl, -⟩ := Prod.mk.inj (Option.some.inj hk)
  obtain ⟨rfl, -⟩ := Prod.mk.inj (Option.some.inj hk')
  exact hne (stripPrefix_inj hp hp')

/-! ## Translating snapshot ids -/

/-- The snapshot ids of the pairs. -/
def pairIds (pairs : List (InstanceSnapshot × Ref)) : List (Ref × Ref) :=
  (pairs.filter fun pair => pair.1.snapshotId.isSome).map fun pair => (pair.1.snapshotId, pair.2)

theorem pairIds_append (a b : List (InstanceSnapshot × Ref)) :
    pairIds (a ++ b) = pairIds a ++ pairIds b := by
  unfold pairIds
  rw [List.filter_append, List.map_append]

/-- A `Ref` value with its id translated, if the id is known; any other value stays. -/
def rewriteRef (ids : Map Ref Ref) (value : Variant) : Variant :=
  match value with
  | .ref referent =>
    match ids.lookup referent with
    | some instanceReferent => .ref instanceReferent
    | none => value
  | _ => value

@[simp] theorem rewriteRef_ref (ids : Map Ref Ref) (r : Ref) :
    rewriteRef ids (.ref r) = .ref ((ids.lookup r).getD r) := by
  unfold rewriteRef
  dsimp only
  cases ids.lookup r <;> rfl

theorem rewriteRef_of_lookup_none {ids : Map Ref Ref} {value : Variant}
    (h : ∀ r, value = .ref r → ids.lookup r = none) : rewriteRef ids value = value := by
  unfold rewriteRef
  split
  · rw [h _ rfl]
  · rfl

end Roxo
