import Roxo.Snapshot.Casts
import Roxo.Syncback.PropertyFilter
import Roxo.Syncback.RefProperties

/-!
# Values without their types

A value that is written without its type is resolved by the type that the reflection database
gives for the property. What is written for a value resolves to it again, but integers pass through
floats, and as an attribute text has no bytes of its own (`resolve_fromVariant`).
-/

namespace Roxo

/-! ## Types -/

def VariantType.text : VariantType → String
  | .bool => "Bool"
  | .float32 => "Float32"
  | .float64 => "Float64"
  | .int32 => "Int32"
  | .int64 => "Int64"
  | .string => "String"
  | .tags => "Tags"
  | .content => "Content"
  | .contentId => "ContentId"
  | .vector2 => "Vector2"
  | .vector3 => "Vector3"
  | .color3 => "Color3"
  | .cframe => "CFrame"
  | .attributes => "Attributes"
  | .font => "Font"
  | .materialColors => "MaterialColors"
  | .ref => "Ref"
  | .other name => name

/-- `Variant::ty`. -/
def Variant.variantType : Variant → VariantType
  | .attributes _ => .attributes
  | .value (.bool _) => .bool
  | .value (.float32 _) => .float32
  | .value (.float64 _) => .float64
  | .value (.int32 _) => .int32
  | .value (.int64 _) => .int64
  | .value (.string _) => .string
  | .value (.tags _) => .tags
  | .value (.content _) => .content
  | .value (.contentId _) => .contentId
  | .value (.vector2 _) => .vector2
  | .value (.vector3 _) => .vector3
  | .value (.color3 _) => .color3
  | .value (.cframe _) => .cframe
  | .value (.font _) => .font
  | .value (.materialColors _) => .materialColors
  | .value (.ref _) => .ref
  | v => .other v.ty

/-- What resolving uses of other code. -/
class ValueText where
  /-- `Content::from`. -/
  contentFrom : String → Content
  /-- How a value is printed for debugging. -/
  debug : AmbiguousValue → String

section Resolution

variable [ReflectionDatabase]

/-- The descriptor of a property in the first class on the way up that has it. -/
def findDescriptor (className propName : String) : Option PropertyDescriptor :=
  match _hclass : ReflectionDatabase.classes className with
  | none => none
  | some classData =>
    match classData.properties propName with
    | some descriptor => some descriptor
    | none =>
      match _hsuper : classData.superclass with
      | some superClass => findDescriptor superClass propName
      | none => none
termination_by ReflectionDatabase.classRank className
decreasing_by exact ReflectionDatabase.superclass_lt _hclass _hsuper

/-! ## Resolving -/

/-- Up to eight of the values, or some of them and how many more there are. -/
def nonexhaustiveList (values : List String) : Fallible String :=
  if h : values = [] then .error .panic
  else
    let mainLength := min (values.length - 1) 9
    let mainList := String.join ((values.take mainLength).map fun value => value ++ ", ")
    let remaining := values.length - mainLength
    if values.length > 8 then .ok s!"{mainList}or {remaining} more"
    else .ok (mainList ++ "or " ++ values.getLast h)

namespace AmbiguousValue

def describe : AmbiguousValue → String
  | .bool _ => "a bool"
  | .string _ => "a string"
  | .stringArray _ => "an array of strings"
  | .number _ => "a number"
  | .array2 _ => "an array of two numbers"
  | .array3 _ => "an array of three numbers"
  | .array4 _ => "an array of four numbers"
  | .array12 _ => "an array of twelve numbers"
  | .attributes _ => "an object containing attributes"
  | .font _ => "an object describing a Font"
  | .materialColors _ => "an object describing MaterialColors"

/-- The arm of `resolve` for enums. -/
def resolveEnum (value : AmbiguousValue) (className propName enumName : String) :
    Fallible Variant :=
  match ReflectionDatabase.enums enumName with
  | none => Fallible.bail s!"Unknown enum {enumName}. This is a Rojo bug!"
  | some enumDescriptor =>
    let error (what : String) : Fallible Variant := do
      let allValues := (enumDescriptor.items.map Prod.fst).mergeSort (· ≤ ·)
      let examples ← nonexhaustiveList allValues
      Fallible.bail (s!"Invalid value for property {className}.{propName}. Got {what} but " ++
        s!"expected a member of the {enumName} enum such as {examples}")
    match value with
    | .string text =>
      match enumDescriptor.items.lookup text with
      | some resolved => .ok (.value (.enum resolved))
      | none => error text
    | unresolved => error unresolved.describe

variable [ValueText]

/-- The arm of `resolve` for the other types. -/
def resolveValue (value : AmbiguousValue) (className propName : String) (variantTy : VariantType) :
    Fallible Variant :=
  match variantTy, value with
  | .bool, .bool b => .ok (.bool b)
  | .float32, .number n => .ok (.value (.float32 n.toF32))
  | .float64, .number n => .ok (.value (.float64 n))
  | .int32, .number n => .ok (.value (.int32 n.toInt32))
  | .int64, .number n => .ok (.value (.int64 n.toInt64))
  | .string, .string text => .ok (.string text)
  | .tags, .stringArray tags => .ok (.value (.tags tags))
  | .content, .string text => .ok (.value (.content (ValueText.contentFrom text)))
  | .contentId, .string text => .ok (.value (.contentId text))
  | .vector2, .array2 a => .ok (.value (.vector2 ⟨a[0].toF32, a[1].toF32⟩))
  | .vector3, .array3 a => .ok (.value (.vector3 ⟨a[0].toF32, a[1].toF32, a[2].toF32⟩))
  | .color3, .array3 a => .ok (.value (.color3 ⟨a[0].toF32, a[1].toF32, a[2].toF32⟩))
  | .cframe, .array12 a =>
    .ok (.value (.cframe ⟨⟨a[0].toF32, a[1].toF32, a[2].toF32⟩,
      ⟨a[3].toF32, a[4].toF32, a[5].toF32⟩, ⟨a[6].toF32, a[7].toF32, a[8].toF32⟩,
      ⟨a[9].toF32, a[10].toF32, a[11].toF32⟩⟩))
  | .attributes, .attributes entries => .ok (.attributes entries)
  | .font, .font face => .ok (.value (.font face))
  | .materialColors, .materialColors colors => .ok (.value (.materialColors colors))
  | .ref, .string _ =>
    Fallible.bail ("Cannot resolve Ref properties as a String." ++
      s!"Use an attribute named `{refPointerAttributePrefix}{propName}`")
  | ty, unresolved =>
    Fallible.bail (s!"Wrong type of value for property {className}.{propName}. " ++
      s!"Expected {ty.text}, got {unresolved.describe}")

def resolve (value : AmbiguousValue) (className propName : String) : Fallible Variant :=
  match findDescriptor className propName with
  | none => Fallible.bail s!"Unknown property {className}.{propName}"
  | some property =>
    match property.dataType with
    | .enum enumName => value.resolveEnum className propName enumName
    | .value variantTy => value.resolveValue className propName variantTy
    | .other => Fallible.bail s!"Unknown data type for property {className}.{propName}"

def resolveUnambiguous : AmbiguousValue → Fallible Variant
  | .bool b => .ok (.bool b)
  | .number n => .ok (.value (.float64 n))
  | .string text => .ok (.string text)
  | other => Fallible.bail s!"Cannot unambiguously resolve the value {ValueText.debug other}"

end AmbiguousValue

namespace UnresolvedValue

/-- The name that the database has for the value of an enum property. -/
def enumItemName (property : PropertyDescriptor) (value : UInt32) : Option String :=
  match property.dataType with
  | .enum enumName =>
    (ReflectionDatabase.enums enumName).bind fun enumDescriptor =>
      (enumDescriptor.items.find? fun item => item.2 = value).map Prod.fst
  | _ => none

/-- Only for a known property a value is written without its type. -/
def fromVariant (variant : Variant) (className propName : String) : UnresolvedValue :=
  match findDescriptor className propName with
  | none => .fullyQualified variant
  | some property =>
    match variant with
    | .value (.enum value) =>
      match enumItemName property value with
      | some name => .ambiguous (.string name)
      | none => .fullyQualified variant
    | .bool b => .ambiguous (.bool b)
    | .value (.float32 n) => .ambiguous (.number n.toF64)
    | .value (.float64 n) => .ambiguous (.number n)
    | .value (.int32 n) => .ambiguous (.number (.ofInt n.toInt))
    | .value (.int64 n) => .ambiguous (.number (.ofInt n.toInt))
    | .string text => .ambiguous (.string text)
    | .value (.tags tags) => .ambiguous (.stringArray tags)
    | .value (.content .none) => .ambiguous (.string "")
    | .value (.content (.uri uri)) => .ambiguous (.string uri)
    | .value (.contentId uri) => .ambiguous (.string uri)
    | .value (.vector2 v) => .ambiguous (.array2 #v[v.x.toF64, v.y.toF64])
    | .value (.vector3 v) => .ambiguous (.array3 #v[v.x.toF64, v.y.toF64, v.z.toF64])
    | .value (.color3 color) =>
      .ambiguous (.array3 #v[color.r.toF64, color.g.toF64, color.b.toF64])
    | .value (.cframe cf) =>
      .ambiguous (.array12 #v[cf.position.x.toF64, cf.position.y.toF64, cf.position.z.toF64,
        cf.orientation.x.x.toF64, cf.orientation.x.y.toF64, cf.orientation.x.z.toF64,
        cf.orientation.y.x.toF64, cf.orientation.y.y.toF64, cf.orientation.y.z.toF64,
        cf.orientation.z.x.toF64, cf.orientation.z.y.toF64, cf.orientation.z.z.toF64])
    | .attributes entries => .ambiguous (.attributes entries)
    | .value (.font face) => .ambiguous (.font face)
    | .value (.materialColors colors) => .ambiguous (.materialColors colors)
    | _ => .fullyQualified variant

/-- Without a property only text, numbers and booleans are written without their types. -/
def fromVariantUnambiguous (variant : Variant) : UnresolvedValue :=
  match variant with
  | .string text => .ambiguous (.string text)
  | .value (.float64 n) => .ambiguous (.number n)
  | .bool b => .ambiguous (.bool b)
  | .binaryString bytes =>
    match String.fromUTF8? ⟨bytes.toArray⟩ with
    | some text => .ambiguous (.string text)
    | none => .fullyQualified variant
  | _ => .fullyQualified variant

variable [ValueText]

def resolve (value : UnresolvedValue) (className propName : String) : Fallible Variant :=
  match value with
  | .fullyQualified full => .ok full
  | .ambiguous part => part.resolve className propName

def resolveUnambiguous : UnresolvedValue → Fallible Variant
  | .fullyQualified full => .ok full
  | .ambiguous part => part.resolveUnambiguous

end UnresolvedValue

/-! ## What comes back -/

/-- Values of the kind may be values of the property. -/
def PropertyDescriptor.Takes (property : PropertyDescriptor) (v : Variant) : Prop :=
  property.dataType = .value v.variantType ∨
    (∃ name, property.dataType = .enum name) ∧ ∃ n, v = .value (.enum n)

/-- The kinds whose floats pass through floats of another size. -/
def Variant.isFloatingPoint : Variant → Bool
  | .value (.float32 _) | .value (.float64 _) | .value (.vector2 _) | .value (.vector3 _)
  | .value (.color3 _) | .value (.cframe _) => true
  | _ => false

/-- A float has room for an integer, and content is made from its text. -/
def Variant.Written [ValueText] : Variant → Prop
  | .value (.int64 n) => FitsF64 n.toInt ∨ n = Int64.maxValue
  | .value (.content .none) => ValueText.contentFrom "" = .none
  | .value (.content (.uri uri)) => ValueText.contentFrom uri = .uri uri
  | _ => True

omit [ReflectionDatabase] in
/-- The name of an item leads back to its value. -/
theorem EnumDescriptor.lookup_of_find (enumDescriptor : EnumDescriptor) {value : UInt32}
    {item : String × UInt32}
    (h : (enumDescriptor.items.find? fun item => item.2 = value) = some item) :
    enumDescriptor.items.lookup item.1 = some value := by
  obtain ⟨before, after, hitems⟩ := List.append_of_mem (List.mem_of_find?_eq_some h)
  have hvalue : item.2 = value := by simpa using List.find?_some h
  have hnodup := enumDescriptor.nodup
  rw [hitems, List.map_append, List.map_cons, List.nodup_append] at hnodup
  refine List.lookup_eq_some_iff.mpr ⟨before, after, ?_, fun p hp => ?_⟩
  · rw [hitems, ← hvalue]
  · rw [bne_iff_ne]
    exact fun heq => hnodup.2.2 p.1 (List.mem_map_of_mem hp) item.1 List.mem_cons_self heq.symm

/-- An item that is written by its name is the value of an enum property. -/
theorem resolve_enumItemName [ValueText] {className propName name : String}
    {property : PropertyDescriptor} {value : UInt32}
    (hproperty : findDescriptor className propName = some property)
    (h : UnresolvedValue.enumItemName property value = some name) :
    (AmbiguousValue.string name).resolve className propName = .ok (.value (.enum value)) := by
  unfold UnresolvedValue.enumItemName at h
  unfold AmbiguousValue.resolve
  rw [hproperty]
  cases htype : property.dataType with
  | value ty =>
    rw [htype] at h
    cases h
  | other =>
    rw [htype] at h
    cases h
  | enum enumName =>
    rw [htype] at h
    obtain ⟨enumDescriptor, henum, hname⟩ := Option.bind_eq_some_iff.mp h
    obtain ⟨item, hitem, rfl⟩ := Option.map_eq_some_iff.mp hname
    dsimp only
    rw [htype]
    dsimp only
    unfold AmbiguousValue.resolveEnum
    rw [henum]
    dsimp only
    rw [enumDescriptor.lookup_of_find hitem]

/-- A value of a known property comes back. -/
theorem resolve_fromVariant_known [ValueText] {className propName : String}
    {property : PropertyDescriptor} {v : Variant}
    (hproperty : findDescriptor className propName = some property) (htakes : property.Takes v)
    (hfloats : v.isFloatingPoint = false) (hwritten : v.Written) :
    (UnresolvedValue.fromVariant v className propName).resolve className propName = .ok v := by
  unfold UnresolvedValue.fromVariant
  rw [hproperty]
  dsimp only
  by_cases henum : ∃ n, v = .value (.enum n)
  · obtain ⟨n, rfl⟩ := henum
    dsimp only
    cases hname : UnresolvedValue.enumItemName property n with
    | none => rfl
    | some name => exact resolve_enumItemName hproperty hname
  · have htype : property.dataType = .value v.variantType :=
      htakes.resolve_right fun h => henum h.2
    have hresolve : ∀ part : AmbiguousValue, part.resolve className propName =
        part.resolveValue className propName v.variantType := by
      intro part
      unfold AmbiguousValue.resolve
      rw [hproperty]
      dsimp only
      rw [htype]
    cases v with
    | attributes entries => exact hresolve _
    | value v =>
      cases v with
      | bool b => exact hresolve _
      | int32 n =>
        refine (hresolve _).trans ?_
        exact congrArg (fun m => Except.ok (Variant.value (.int32 m))) (F64.toInt32_ofInt n)
      | int64 n =>
        refine (hresolve _).trans ?_
        have hback : (F64.ofInt n.toInt).toInt64 = n := by
          rcases hwritten with hfits | rfl
          · exact F64.toInt64_ofInt hfits
          · exact F64.toInt64_ofInt_max
        exact congrArg (fun m => Except.ok (Variant.value (.int64 m))) hback
      | string text => exact hresolve _
      | tags tags => exact hresolve _
      | content content =>
        cases content with
        | none =>
          exact (hresolve _).trans (congrArg (fun c => Except.ok (Variant.value (.content c))) hwritten)
        | uri uri =>
          exact (hresolve _).trans (congrArg (fun c => Except.ok (Variant.value (.content c))) hwritten)
        | object referent => rfl
      | contentId uri => exact hresolve _
      | font face => exact hresolve _
      | materialColors colors => exact hresolve _
      | enum n => exact absurd ⟨n, rfl⟩ henum
      | float32 n => cases hfloats
      | float64 n => cases hfloats
      | vector2 p => cases hfloats
      | vector3 p => cases hfloats
      | color3 color => cases hfloats
      | cframe cf => cases hfloats
      | _ => rfl

/-- Bytes that are text come back as the text. -/
def Variant.asText : Variant → Variant
  | .binaryString bytes =>
    match String.fromUTF8? ⟨bytes.toArray⟩ with
    | some text => .string text
    | none => .binaryString bytes
  | v => v

/-- **What is written for a value of a property resolves to the value, and what is written for an
attribute resolves to the value or, for bytes that are text, to the text.** -/
theorem resolve_fromVariant [ValueText] :
    (∀ (className propName : String) (v : Variant),
      (∀ property, findDescriptor className propName = some property → property.Takes v) →
      v.isFloatingPoint = false → v.Written →
      (UnresolvedValue.fromVariant v className propName).resolve className propName = .ok v) ∧
    ∀ v : Variant, (UnresolvedValue.fromVariantUnambiguous v).resolveUnambiguous = .ok v.asText := by
  refine ⟨fun className propName v htakes hfloats hwritten => ?_, fun v => ?_⟩
  · cases hproperty : findDescriptor className propName with
    | none =>
      unfold UnresolvedValue.fromVariant
      rw [hproperty]
      rfl
    | some property =>
      exact resolve_fromVariant_known hproperty (htakes property hproperty) hfloats hwritten
  · cases v with
    | attributes entries => rfl
    | value v =>
      cases v with
      | binaryString bytes =>
        unfold UnresolvedValue.fromVariantUnambiguous Variant.asText
        dsimp only
        cases String.fromUTF8? ⟨bytes.toArray⟩ with
        | none => rfl
        | some text => rfl
      | _ => rfl

end Resolution

/-! ## A large integer -/

/-- The only class has a value that is an integer. -/
@[reducible] def intValueDatabase : ReflectionDatabase where
  classes name :=
    if name = "IntValue" then
      some ⟨none, fun property => if property = "Value" then
        some ⟨.canonical .serializes, .readWrite, .value .int64⟩ else none, fun _ => none⟩
    else none
  enums _ := none
  classRank _ := 0
  aliasRank _ := 0
  superclass_lt hdata hsuper := by
    split at hdata
    · cases hdata
      cases hsuper
    · cases hdata
  alias_lt hdata hproperty halias := by
    split at hdata
    · cases hdata
      dsimp only at hproperty
      split at hproperty
      · cases hproperty
        cases halias
      · cases hproperty
    · cases hdata

/-- All content has a URI. -/
@[reducible] def uriText : ValueText := ⟨.uri, fun _ => ""⟩

theorem findDescriptor_intValue : letI := intValueDatabase
    findDescriptor "IntValue" "Value" =
      some ⟨.canonical .serializes, .readWrite, .value .int64⟩ := by
  unfold findDescriptor
  rfl

theorem resolve_fromVariant_532413 : letI := intValueDatabase; letI := uriText
    (UnresolvedValue.fromVariant (.value (.int64 532413)) "IntValue" "Value").resolve
      "IntValue" "Value" = .ok (.value (.int64 532413)) := by
  let _ := intValueDatabase
  let _ := uriText
  refine resolve_fromVariant.1 "IntValue" "Value" _ (fun property hproperty => ?_) rfl
    (.inl (by decide))
  rw [findDescriptor_intValue] at hproperty
  cases hproperty
  exact .inl rfl

/-- An integer for which a float has no room comes back as another one, and bytes as text. -/
theorem not_resolve_fromVariant : letI := intValueDatabase; letI := uriText
    ¬ ((∀ (className propName : String) (v : Variant),
      (∀ property, findDescriptor className propName = some property → property.Takes v) →
      v.isFloatingPoint = false →
      (UnresolvedValue.fromVariant v className propName).resolve className propName = .ok v) ∨
    ∀ v w : Variant, (UnresolvedValue.fromVariantUnambiguous v).resolveUnambiguous = .ok w →
      w.variantType = v.variantType) := by
  let _ := intValueDatabase
  let _ := uriText
  rintro (hproperties | hattributes)
  · have hback := hproperties "IntValue" "Value" (.value (.int64 (2 ^ 53 + 1)))
      (fun property hproperty => by
        rw [findDescriptor_intValue] at hproperty
        cases hproperty
        exact .inl rfl) rfl
    unfold UnresolvedValue.fromVariant UnresolvedValue.resolve AmbiguousValue.resolve at hback
    rw [findDescriptor_intValue] at hback
    revert hback
    decide +kernel
  · have hsame := hattributes (.binaryString []) (.string "") rfl
    exact absurd hsame (by decide)

end Roxo
