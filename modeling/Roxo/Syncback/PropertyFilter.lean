import Roxo.Snapshot.WeakDom

/-!
# Property filtering

Which properties of an instance syncback writes: those that serialize, that the project does not
hold back and that do not have their default value. What the reflection database knows about
classes is a parameter.
-/

namespace Roxo

open AssocMap

/-! ## The reflection database -/

inductive PropertySerialization where
  | serializes
  | doesNotSerialize
  | serializesAs (name : String)
  | migrate (newName : String)
  deriving DecidableEq, Repr

inductive PropertyKind where
  | canonical (serialization : PropertySerialization)
  | alias (aliasFor : String)
  deriving DecidableEq, Repr

inductive Scriptability where
  | none
  | readWrite
  | read
  | write
  | custom
  deriving DecidableEq, Repr

/-- `VariantType`: the types that values are resolved to have their own names. -/
inductive VariantType where
  | bool
  | float32
  | float64
  | int32
  | int64
  | string
  | tags
  | content
  | contentId
  | vector2
  | vector3
  | color3
  | cframe
  | attributes
  | font
  | materialColors
  | ref
  | other (name : String)
  deriving DecidableEq, Repr

inductive DataType where
  | value (ty : VariantType)
  | enum (name : String)
  | other
  deriving DecidableEq, Repr

structure PropertyDescriptor where
  kind : PropertyKind
  scriptability : Scriptability
  dataType : DataType
  deriving DecidableEq, Repr

/-- The items of an enum with their values. -/
structure EnumDescriptor where
  items : List (String × UInt32)
  nodup : (items.map Prod.fst).Nodup

structure ClassDescriptor where
  superclass : Option String
  properties : String → Option PropertyDescriptor
  defaultProperties : String → Option Variant

/-- `rbx_reflection_database::get`. No class is below itself and no alias leads back to itself. -/
class ReflectionDatabase where
  classes : String → Option ClassDescriptor
  enums : String → Option EnumDescriptor
  classRank : String → ℕ
  aliasRank : String → ℕ
  superclass_lt : ∀ {name data superClass}, classes name = some data →
    data.superclass = some superClass → classRank superClass < classRank name
  alias_lt : ∀ {name data property descriptor aliasFor}, classes name = some data →
    data.properties property = some descriptor → descriptor.kind = .alias aliasFor →
    aliasRank aliasFor < aliasRank property

/-- A database without classes, to evaluate the model with. -/
@[reducible] def ReflectionDatabase.empty : ReflectionDatabase where
  classes _ := none
  enums _ := none
  classRank _ := 0
  aliasRank _ := 0
  superclass_lt h := nomatch h
  alias_lt h := nomatch h

/-! ## The filter -/

/-- The rules of a project for syncback that decide about instances and properties. -/
structure SyncbackRules where
  ignoreTrees : List String := []
  ignoreProperties : List (String × List String) := []
  syncCurrentCamera : Option Bool := none
  syncUnscriptable : Option Bool := none
  ignoreReferents : Option Bool := none
  deriving DecidableEq, Repr

section Filter

variable [ReflectionDatabase]

/-- The first class on the way up that has the property decides. -/
def shouldPropertySerialize (className propName : String) : Bool :=
  match _hdata : ReflectionDatabase.classes className with
  | none => true
  | some classData =>
    match _hproperty : classData.properties propName with
    | some data =>
      match _hkind : data.kind with
      | .alias aliasFor => shouldPropertySerialize className aliasFor
      | .canonical serialization => serialization ≠ .doesNotSerialize
    | none =>
      match _hsuper : classData.superclass with
      | some superClass => shouldPropertySerialize superClass propName
      | none => true
termination_by (ReflectionDatabase.classRank className, ReflectionDatabase.aliasRank propName)
decreasing_by
  · exact Prod.Lex.right _ (ReflectionDatabase.alias_lt _hdata _hproperty _hkind)
  · exact Prod.Lex.left _ _ (ReflectionDatabase.superclass_lt _hdata _hsuper)

omit [ReflectionDatabase] in
theorem shouldPropertySerialize_empty (className propName : String) :
    letI := ReflectionDatabase.empty
    shouldPropertySerialize className propName = true := by
  unfold shouldPropertySerialize
  rfl

/-- The predicate of `filter_properties_preallocated`: the property is not written. -/
def skipsProperty (rules : Option SyncbackRules) (className propName : String)
    (propValue : Variant) : Bool :=
  match propValue with
  | .ref _ | .value (.uniqueId _) => true
  | _ =>
    let syncUnscriptable := (rules.bind (·.syncUnscriptable)).getD true
    if !shouldPropertySerialize className propName then true
    else if !syncUnscriptable then
      match (ReflectionDatabase.classes className).bind (·.properties propName) with
      | some propData => propData.scriptability = .none
      | none => false
    else false

/-- The value that a property of a class has by default. -/
def defaultProperty (className propName : String) : Option Variant :=
  (ReflectionDatabase.classes className).bind (·.defaultProperties propName)

variable [FloatCmp]

/-- The loop over the properties of an instance. -/
def filterLoop (rules : Option SyncbackRules) (className : String) :
    List (String × Variant) → MayPanic (List (String × Variant))
  | [] => some []
  | (name, value) :: properties => do
    let kept ← filterLoop rules className properties
    if skipsProperty rules className name value then some kept
    else
      match defaultProperty className name with
      | some default => do
        let same ← variantEq value default
        some (if same then kept else (name, value) :: kept)
      | none => some ((name, value) :: kept)

/-- `filter_properties_preallocated`: the properties that are not held back, serialize and do not
have their default value. -/
def filterProperties (rules : Option SyncbackRules) (inst : Instance) :
    MayPanic (List (String × Variant)) :=
  filterLoop rules inst.className (toList inst.properties)

end Filter

end Roxo
