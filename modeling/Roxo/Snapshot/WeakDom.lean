import Roxo.Library.AssocMap
import Roxo.Library.Forest
import Roxo.Snapshot.Metadata

/-!
# The DOM

`WeakDom` is the part of the `rbx_dom_weak` crate that the tree is built on: a collection of
instances under one root. The crate is not part of the sources, so a DOM is any type with these
operations, and `LawfulWeakDom` is what the crate documents about them. `Issued` are the ids that
`Ref::new` has handed out; an inserted instance gets one that it has not.
-/

namespace Roxo

open AssocMap Forest

/-- A map whose keys are interned strings. -/
abbrev UstrMap (V : Type) := Map String V

/-- An instance of a DOM. -/
structure Instance where
  referent : Ref
  children : List Ref
  parent : Ref
  name : String
  className : String
  properties : UstrMap Variant
  deriving DecidableEq

/-- An instance that is not yet in a DOM. -/
structure InstanceBuilder where
  className : String
  name : String
  properties : UstrMap Variant

namespace InstanceBuilder

/-- A builder is named like its class until it gets a name. -/
def new (className : String) : InstanceBuilder := ⟨className, className, ∅⟩

def empty : InstanceBuilder := ⟨"", "", ∅⟩

def withClass (b : InstanceBuilder) (className : String) : InstanceBuilder :=
  { b with className }

def withName (b : InstanceBuilder) (name : String) : InstanceBuilder := { b with name }

/-- The properties given last win. -/
def withProperties (b : InstanceBuilder) (properties : List (String × Variant)) :
    InstanceBuilder :=
  { b with properties := extend b.properties properties }

/-- The instance that the builder becomes. -/
def build (b : InstanceBuilder) (referent parent : Ref) : Instance where
  referent := referent
  children := []
  parent := parent
  name := b.name
  className := b.className
  properties := b.properties

end InstanceBuilder

/-- A property as a DOM stores it: a `UniqueId` that is taken there is replaced by another one. -/
def StoredAs (k : String) (given stored : Option Variant) : Prop :=
  stored = given ∨ k = "UniqueId" ∧ ∃ id id', given = some (.value (.uniqueId id)) ∧
    stored = some (.value (.uniqueId id'))

/-- The properties of an inserted instance, for the given ones. -/
def Stored (given stored : UstrMap Variant) : Prop :=
  ∀ k, StoredAs k (given.lookup k) (stored.lookup k)

section

variable {k : String} {given stored : Option Variant}

theorem StoredAs.eq_of_ne (h : StoredAs k given stored) (hk : k ≠ "UniqueId") :
    stored = given :=
  h.resolve_right fun hid => hk hid.1

/-- What is no `UniqueId` is kept. -/
theorem StoredAs.eq_of_value (h : StoredAs k given stored)
    (hv : ∀ id, given ≠ some (.value (.uniqueId id))) : stored = given := by
  rcases h with h | ⟨-, id, -, hgiven, -⟩
  · exact h
  · exact absurd hgiven (hv id)

end

/-- The DOM operations that the tree uses. -/
class WeakDom (D : Type) where
  new : InstanceBuilder → D
  rootRef : D → Ref
  getByRef : D → Ref → Option Instance
  insert : D → Ref → InstanceBuilder → MayPanic (Ref × D)
  destroy : D → Ref → MayPanic D
  /-- What is done to an instance through `get_by_ref_mut`, which gives access to its name, its
  class and its properties. -/
  write : D → Ref → (Instance → Instance) → D
  /-- The id has been handed out by `Ref::new`. -/
  Issued : D → Ref → Prop

namespace WeakDom

variable {D : Type} [WeakDom D]

/-- The children of a node, none if the node does not exist. -/
def kids (d : D) (a : Ref) : List Ref :=
  match getByRef d a with
  | some i => i.children
  | none => []

theorem kids_eq {d : D} {a : Ref} {i : Instance} (h : getByRef d a = some i) :
    kids d a = i.children := by
  unfold kids
  rw [h]

/-- What an instance looks like after a write: id, parent and children stay. -/
def written (f : Instance → Instance) (i : Instance) : Instance :=
  { i with
    name := (f i).name
    className := (f i).className
    properties := (f i).properties }

end WeakDom

open WeakDom

/-- What the crate documents about its operations. -/
class LawfulWeakDom (D : Type) [WeakDom D] : Prop where
  getByRef_null : ∀ d : D, getByRef d Ref.none = none
  referent_eq : ∀ (d : D) {x i}, getByRef d x = some i → i.referent = x
  /-- The root is there and has no parent. -/
  root_spec : ∀ d : D, ∃ i, getByRef d (rootRef d) = some i ∧ i.parent = Ref.none
  child_present : ∀ (d : D) {p c}, c ∈ kids d p → ∃ i, getByRef d c = some i ∧ i.parent = p
  mem_kids_of_parent : ∀ (d : D) {c i}, getByRef d c = some i → i.parent ≠ Ref.none →
    c ∈ kids d i.parent
  forest : ∀ d : D, IsForest (kids d)
  issued_of_present : ∀ (d : D) {x i}, getByRef d x = some i → Issued d x
  getByRef_new : ∀ b x, getByRef (new b : D) x =
    if x = rootRef (new b : D) then some (b.build x Ref.none) else none
  insert_isSome : ∀ (d : D) {p i} (b), getByRef d p = some i → (insert d p b).isSome
  /-- The new instance has a fresh id and becomes the last child of its parent. A `UniqueId` that
  another instance has is replaced. -/
  insert_spec : ∀ (d : D) {p b r d'}, insert d p b = some (r, d') →
    r ≠ Ref.none ∧ ¬ Issued d r ∧ rootRef d' = rootRef d ∧
    (∀ x, Issued d x → Issued d' x) ∧
    (∃ properties, Stored b.properties properties ∧
      getByRef d' r = some { b.build r p with properties := properties }) ∧
    ∀ x, x ≠ r → getByRef d' x = (getByRef d x).map fun i =>
      if x = p then { i with children := i.children ++ [r] } else i
  destroy_isSome : ∀ (d : D) {x i}, getByRef d x = some i → x ≠ rootRef d → (destroy d x).isSome
  /-- An instance goes with its descendants. -/
  destroy_spec : ∀ (d : D) {x d'}, destroy d x = some d' →
    rootRef d' = rootRef d ∧ (∀ y, Issued d y → Issued d' y) ∧
    (∀ y, Desc (kids d) x y → getByRef d' y = none) ∧
    ∀ y, ¬ Desc (kids d) x y → getByRef d' y = (getByRef d y).map fun i =>
      { i with children := i.children.filter (· ≠ x) }
  rootRef_write : ∀ (d : D) x f, rootRef (write d x f) = rootRef d
  issued_write : ∀ (d : D) x f y, Issued d y → Issued (write d x f) y
  getByRef_write : ∀ (d : D) x f y, getByRef (write d x f) y =
    if y = x then (getByRef d y).map (written f) else getByRef d y

end Roxo
