import Mathlib.Data.List.Basic
import Mathlib.Data.Option.Basic

/-!
# Property values

`Ref` names an instance, `Variant` is the value of a property, and `variantEq` decides whether
two values are the same for the purpose of patching.

A function that can panic returns `MayPanic`, with `none` for the panic. Floats are their bits;
the approximate comparison of the `float_cmp` crate is a parameter (`FloatCmp`).
-/

namespace Roxo

/-- The result of code that may panic: `none` is the panic. -/
abbrev MayPanic (α : Type) := Option α

/-- `rbx_types::Ref`: the id of an instance, or the null reference. -/
structure Ref where
  id : Option ℕ
  deriving DecidableEq, Repr

namespace Ref

/-- The null reference. -/
def none : Ref := ⟨.none⟩

/-- The reference with the given number. -/
def some (n : ℕ) : Ref := ⟨.some n⟩

def isNone (r : Ref) : Bool := r.id.isNone

def isSome (r : Ref) : Bool := r.id.isSome

theorem isSome_iff {r : Ref} : r.isSome = true ↔ r ≠ Ref.none := by
  cases r with
  | mk id => cases id <;> simp [isSome, Ref.none]

theorem isNone_iff {r : Ref} : r.isNone = true ↔ r = Ref.none := by
  cases r with
  | mk id => cases id <;> simp [isNone, Ref.none]

end Ref

/-! ## Floats -/

/-- An `f32`, as its bits. -/
structure F32 where
  bits : BitVec 32
  deriving DecidableEq, Repr

/-- An `f64`, as its bits. -/
structure F64 where
  bits : BitVec 64
  deriving DecidableEq, Repr

/-- The exponent is all ones and the fraction is not zero. -/
def F32.isNan (a : F32) : Bool := 0x7f800000 < (a.bits.extractLsb' 0 31).toNat

def F64.isNan (a : F64) : Bool := 0x7ff0000000000000 < (a.bits.extractLsb' 0 63).toNat

/-- The sign and magnitude of a float that is not NaN, as an integer; both zeros are `0`. -/
def F32.magnitude (a : F32) : Int :=
  if a.bits.msb then -Int.ofNat (a.bits.extractLsb' 0 31).toNat
  else Int.ofNat (a.bits.extractLsb' 0 31).toNat

/-- `approx_eq` of the `float_cmp` crate at its default margins. -/
class FloatCmp where
  approxEqF32 : F32 → F32 → Bool
  approxEqF64 : F64 → F64 → Bool

/-- Equal floats are approximately equal: the crate compares exactly before it looks at the
margins. NaN is not equal to itself. -/
class LawfulFloatCmp [FloatCmp] : Prop where
  approxEqF32_self : ∀ a : F32, a.isNan = false → FloatCmp.approxEqF32 a a = true
  approxEqF64_self : ∀ a : F64, a.isNan = false → FloatCmp.approxEqF64 a a = true

/-- Only the same bits are equal: a comparison to evaluate the model with, for values that have no
floats. -/
@[reducible] def FloatCmp.exact : FloatCmp := ⟨fun a b => a == b, fun a b => a == b⟩

theorem lawful_exact : @LawfulFloatCmp FloatCmp.exact :=
  @LawfulFloatCmp.mk FloatCmp.exact (fun a _ => beq_self_eq_true a) fun a _ => beq_self_eq_true a

/-- The `approx_eq!` macro of `variant_eq`: NaN counts as equal to NaN. -/
def approxEq32 [FloatCmp] (a b : F32) : Bool :=
  FloatCmp.approxEqF32 a b || a.isNan && b.isNan

def approxEq64 [FloatCmp] (a b : F64) : Bool :=
  FloatCmp.approxEqF64 a b || a.isNan && b.isNan

/-! ## Values -/

structure Vector2 where
  x : F32
  y : F32
  deriving DecidableEq, Repr

structure Vector3 where
  x : F32
  y : F32
  z : F32
  deriving DecidableEq, Repr

structure Vector2int16 where
  x : Int16
  y : Int16
  deriving DecidableEq, Repr

structure Vector3int16 where
  x : Int16
  y : Int16
  z : Int16
  deriving DecidableEq, Repr

structure Matrix3 where
  x : Vector3
  y : Vector3
  z : Vector3
  deriving DecidableEq, Repr

structure CFrame where
  position : Vector3
  orientation : Matrix3
  deriving DecidableEq, Repr

structure Color3 where
  r : F32
  g : F32
  b : F32
  deriving DecidableEq, Repr

structure Color3uint8 where
  r : UInt8
  g : UInt8
  b : UInt8
  deriving DecidableEq, Repr

structure ColorSequenceKeypoint where
  time : F32
  color : Color3
  deriving DecidableEq, Repr

structure NumberSequenceKeypoint where
  time : F32
  value : F32
  envelope : F32
  deriving DecidableEq, Repr

/-- `rbx_types::ContentType`. -/
inductive Content where
  | none
  | uri (uri : String)
  | object (referent : Ref)
  deriving DecidableEq, Repr

structure Font where
  family : String
  weight : UInt16
  style : UInt8
  cachedFaceId : Option String
  deriving DecidableEq, Repr

structure CustomPhysicalProperties where
  density : F32
  friction : F32
  elasticity : F32
  frictionWeight : F32
  elasticityWeight : F32
  acousticAbsorption : F32
  deriving DecidableEq, Repr

inductive PhysicalProperties where
  | default
  | custom (properties : CustomPhysicalProperties)
  deriving DecidableEq, Repr

structure UDim where
  scale : F32
  offset : Int32
  deriving DecidableEq, Repr

structure UniqueId where
  index : UInt32
  time : UInt32
  random : Int64
  deriving DecidableEq, Repr

/-- Every kind of `rbx_types::Variant` but `Attributes`, the only one that contains variants. -/
inductive Value where
  | axes (bits : UInt8)
  | binaryString (bytes : List UInt8)
  | bool (b : Bool)
  | brickColor (number : UInt16)
  | cframe (cframe : CFrame)
  | color3 (color : Color3)
  | color3uint8 (color : Color3uint8)
  | colorSequence (keypoints : List ColorSequenceKeypoint)
  | content (content : Content)
  | contentId (uri : String)
  | enum (value : UInt32)
  | enumItem (ty : String) (value : UInt32)
  | faces (bits : UInt8)
  | float32 (n : F32)
  | float64 (n : F64)
  | font (font : Font)
  | int32 (n : Int32)
  | int64 (n : Int64)
  | materialColors (encoded : List UInt8)
  | netAssetRef (bytes : List UInt8)
  | numberRange (min max : F32)
  | numberSequence (keypoints : List NumberSequenceKeypoint)
  | optionalCFrame (cframe : Option CFrame)
  | physicalProperties (properties : PhysicalProperties)
  | ray (origin direction : Vector3)
  | rect (min max : Vector2)
  | ref (referent : Ref)
  | region3 (min max : Vector3)
  | region3int16 (min max : Vector3int16)
  | securityCapabilities (bits : UInt64)
  | sharedString (bytes : List UInt8)
  | string (s : String)
  | tags (tags : List String)
  | udim (d : UDim)
  | udim2 (x y : UDim)
  | uniqueId (id : UniqueId)
  | vector2 (v : Vector2)
  | vector2int16 (v : Vector2int16)
  | vector3 (v : Vector3)
  | vector3int16 (v : Vector3int16)
  deriving DecidableEq, Repr

/-- `rbx_types::Variant`. The attributes are the entries of their map in key order. -/
inductive Variant where
  | attributes (attributes : List (String × Variant))
  | value (value : Value)

namespace Variant

@[match_pattern] abbrev bool (b : Bool) : Variant := .value (.bool b)
@[match_pattern] abbrev string (s : String) : Variant := .value (.string s)
@[match_pattern] abbrev binaryString (bytes : List UInt8) : Variant := .value (.binaryString bytes)
@[match_pattern] abbrev ref (referent : Ref) : Variant := .value (.ref referent)

mutual

def decEq : (a b : Variant) → Decidable (a = b)
  | .value a, .value b => decidable_of_iff (a = b) (by simp)
  | .attributes a, .attributes b =>
    match decEqAttributes a b with
    | isTrue h => isTrue (by rw [h])
    | isFalse h => isFalse (by simpa using h)
  | .value _, .attributes _ => isFalse nofun
  | .attributes _, .value _ => isFalse nofun

def decEqAttributes : (a b : List (String × Variant)) → Decidable (a = b)
  | [], [] => isTrue rfl
  | [], _ :: _ => isFalse nofun
  | _ :: _, [] => isFalse nofun
  | (k, a) :: as, (l, b) :: bs =>
    if hk : k = l then
      match decEq a b, decEqAttributes as bs with
      | isTrue h, isTrue hs => isTrue (by rw [hk, h, hs])
      | isFalse h, _ => isFalse (by simp [h])
      | _, isFalse hs => isFalse (by simp [hs])
    else isFalse (by simp [hk])

end

instance : DecidableEq Variant := decEq

end Variant

/-! ## Comparison -/

section VariantEq

variable [FloatCmp]

def vectorEq (a b : Vector3) : Bool :=
  approxEq32 a.x b.x && approxEq32 a.y b.y && approxEq32 a.z b.z

/-- Sorting keypoints by time unwraps the comparison of two times, which fails on NaN. -/
def sortByTime {K : Type} (time : K → F32) (keypoints : List K) : MayPanic (List K) :=
  if 2 ≤ keypoints.length ∧ keypoints.any (fun k => (time k).isNan) then none
  else some (keypoints.mergeSort fun a b => (time a).magnitude ≤ (time b).magnitude)

def cframeEq (a b : CFrame) : Bool :=
  vectorEq a.position b.position && vectorEq a.orientation.x b.orientation.x &&
    vectorEq a.orientation.y b.orientation.y && vectorEq a.orientation.z b.orientation.z

/-- The arms of `variant_eq` for two keypoint sequences. -/
def keypointsEq {K : Type} (time : K → F32) (eq : K → K → Bool) (a b : List K) : MayPanic Bool :=
  if a.length ≠ b.length then some false
  else do
    let aKeypoints ← sortByTime time a
    let bKeypoints ← sortByTime time b
    some ((aKeypoints.zip bKeypoints).all fun k => eq k.1 k.2)

def udimEq (a b : UDim) : Bool := approxEq32 a.scale b.scale && a.offset == b.offset

def vector2Eq (a b : Vector2) : Bool := approxEq32 a.x b.x && approxEq32 a.y b.y

/-- The arms of `variant_eq` for the kinds without nested variants. -/
def valueEq : Value → Value → MayPanic Bool
  | .axes a, .axes b => some (a == b)
  | .binaryString a, .binaryString b => some (a == b)
  | .bool a, .bool b => some (a == b)
  | .brickColor a, .brickColor b => some (a == b)
  | .cframe a, .cframe b => some (cframeEq a b)
  | .color3 a, .color3 b =>
    some (approxEq32 a.r b.r && approxEq32 a.g b.g && approxEq32 a.b b.b)
  | .color3uint8 a, .color3uint8 b => some (a == b)
  | .colorSequence a, .colorSequence b =>
    keypointsEq ColorSequenceKeypoint.time (fun a b => approxEq32 a.time b.time &&
      approxEq32 a.color.r b.color.r && approxEq32 a.color.g b.color.g &&
      approxEq32 a.color.b b.color.b) a b
  | .content a, .content b => some (a == b)
  | .contentId a, .contentId b => some (a == b)
  | .enum a, .enum b => some (a == b)
  | .enumItem a v, .enumItem b w => some (a == b && v == w)
  | .faces a, .faces b => some (a == b)
  | .float32 a, .float32 b => some (approxEq32 a b)
  | .float64 a, .float64 b => some (approxEq64 a b)
  | .font a, .font b =>
    some (a.weight == b.weight && a.style == b.style && a.family == b.family &&
      a.cachedFaceId == b.cachedFaceId)
  | .int32 a, .int32 b => some (a == b)
  | .int64 a, .int64 b => some (a == b)
  | .materialColors a, .materialColors b => some (a == b)
  | .netAssetRef a, .netAssetRef b => some (a == b)
  | .numberRange aMin aMax, .numberRange bMin bMax =>
    some (approxEq32 aMax bMax && approxEq32 aMin bMin)
  | .numberSequence a, .numberSequence b =>
    keypointsEq NumberSequenceKeypoint.time (fun a b => approxEq32 a.time b.time &&
      approxEq32 a.value b.value && approxEq32 a.envelope b.envelope) a b
  | .optionalCFrame (some a), .optionalCFrame (some b) => some (cframeEq a b)
  | .optionalCFrame none, .optionalCFrame none => some true
  | .physicalProperties .default, .physicalProperties .default => some true
  | .physicalProperties (.custom a), .physicalProperties (.custom b) =>
    some (approxEq32 a.density b.density && approxEq32 a.elasticity b.elasticity &&
      approxEq32 a.friction b.friction && approxEq32 a.elasticityWeight b.elasticityWeight &&
      approxEq32 a.frictionWeight b.frictionWeight &&
      approxEq32 a.acousticAbsorption b.acousticAbsorption)
  | .ray aOrigin aDirection, .ray bOrigin bDirection =>
    some (vectorEq aDirection bDirection && vectorEq aOrigin bOrigin)
  | .rect aMin aMax, .rect bMin bMax => some (vector2Eq aMax bMax && vector2Eq aMin bMin)
  | .ref a, .ref b => some (a == b)
  | .region3 aMin aMax, .region3 bMin bMax => some (vectorEq aMax bMax && vectorEq aMin bMin)
  | .region3int16 aMin aMax, .region3int16 bMin bMax => some (aMin == bMin && aMax == bMax)
  | .securityCapabilities a, .securityCapabilities b => some (a == b)
  | .sharedString a, .sharedString b => some (a == b)
  | .tags a, .tags b =>
    if a.length = b.length then some (a.mergeSort (· ≤ ·) == b.mergeSort (· ≤ ·))
    else some false
  | .udim a, .udim b => some (udimEq a b)
  | .udim2 ax ay, .udim2 bx bY => some (udimEq ax bx && udimEq ay bY)
  | .uniqueId a, .uniqueId b => some (a == b)
  | .string a, .string b => some (a == b)
  | .vector2 a, .vector2 b => some (vector2Eq a b)
  | .vector2int16 a, .vector2int16 b => some (a == b)
  | .vector3 a, .vector3 b => some (vectorEq a b)
  | .vector3int16 a, .vector3int16 b => some (a == b)
  -- two kinds, or two shapes of one kind
  | _, _ => some false

mutual

/-- Compares two variants, with floats up to the approximate comparison. -/
def variantEq : Variant → Variant → MayPanic Bool
  | .attributes a, .attributes b => if a.length ≠ b.length then some false else attributesEq a b
  | .value a, .value b => valueEq a b
  | _, _ => some false

/-- The loop over two attribute maps of the same size, which keep their keys in order. -/
def attributesEq : List (String × Variant) → List (String × Variant) → MayPanic Bool
  | (aName, aValue) :: a, (bName, bValue) :: b =>
    if aName = bName then do
      if ← variantEq aValue bValue then attributesEq a b else some false
    else some false
  | _, _ => some true

end

/-! ### A value equals itself -/

section Self

variable [LawfulFloatCmp]

@[simp] theorem approxEq32_self (a : F32) : approxEq32 a a = true := by
  unfold approxEq32
  cases h : a.isNan with
  | true => simp
  | false => simp [LawfulFloatCmp.approxEqF32_self a h]

@[simp] theorem approxEq64_self (a : F64) : approxEq64 a a = true := by
  unfold approxEq64
  cases h : a.isNan with
  | true => simp
  | false => simp [LawfulFloatCmp.approxEqF64_self a h]

@[simp] theorem vectorEq_self (a : Vector3) : vectorEq a a = true := by simp [vectorEq]

@[simp] theorem cframeEq_self (a : CFrame) : cframeEq a a = true := by simp [cframeEq]

@[simp] theorem udimEq_self (a : UDim) : udimEq a a = true := by simp [udimEq]

@[simp] theorem vector2Eq_self (a : Vector2) : vector2Eq a a = true := by simp [vector2Eq]

omit [FloatCmp] [LawfulFloatCmp] in
theorem all_zip_self {K : Type} {eq : K → K → Bool} (heq : ∀ k, eq k k = true) (l : List K) :
    ((l.zip l).all fun k => eq k.1 k.2) = true := by
  induction l with
  | nil => rfl
  | cons k l ih => rw [List.zip_cons_cons, List.all_cons, heq, ih]; rfl

omit [FloatCmp] [LawfulFloatCmp] in
theorem keypointsEq_self {K : Type} {time : K → F32} {eq : K → K → Bool} {a : List K} {r : Bool}
    (heq : ∀ k, eq k k = true) (h : keypointsEq time eq a a = some r) : r = true := by
  unfold keypointsEq at h
  rw [if_neg (by simp)] at h
  cases hs : sortByTime time a with
  | none => simp [hs] at h
  | some l =>
    rw [hs] at h
    exact (Option.some.inj h).symm.trans (all_zip_self heq l)

theorem valueEq_self {v : Value} {r : Bool} (h : valueEq v v = some r) : r = true := by
  cases v with
  | colorSequence a =>
    unfold valueEq at h
    exact keypointsEq_self (fun k => by simp) h
  | numberSequence a =>
    unfold valueEq at h
    exact keypointsEq_self (fun k => by simp) h
  | optionalCFrame a =>
    cases a with
    | none => exact (Option.some.inj h).symm
    | some a => exact (Option.some.inj h).symm.trans (cframeEq_self a)
  | physicalProperties a =>
    cases a with
    | default => exact (Option.some.inj h).symm
    | custom a => exact (Option.some.inj h).symm.trans (by simp)
  | tags a =>
    change (if a.length = a.length then _ else some false) = some r at h
    rw [if_pos rfl] at h
    exact (Option.some.inj h).symm.trans (beq_self_eq_true _)
  | _ => exact (Option.some.inj h).symm.trans (by simp)

set_option linter.unusedSectionVars false in
mutual

theorem variantEq_self : ∀ {v : Variant} {r : Bool}, variantEq v v = some r → r = true
  | .value _, _, h => valueEq_self (by simpa only [variantEq] using h)
  | .attributes a, _, h => attributesEq_self (a := a) (by simpa [variantEq] using h)

theorem attributesEq_self : ∀ {a : List (String × Variant)} {r : Bool},
    attributesEq a a = some r → r = true
  | [], _, h => by simpa [attributesEq, eq_comm] using h
  | (k, v) :: a, r, h => by
    unfold attributesEq at h
    rw [if_pos rfl] at h
    obtain ⟨e, he, h⟩ := Option.bind_eq_some_iff.mp h
    rw [if_pos (variantEq_self he)] at h
    exact attributesEq_self h

end

end Self

end VariantEq

end Roxo
