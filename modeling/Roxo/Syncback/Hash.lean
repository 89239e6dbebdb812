import Mathlib.Data.List.Sort
import Roxo.Syncback.Descendants
import Roxo.Syncback.PropertyFilter

/-!
# Hashing

`hash_tree` gives every instance of a subtree a hash of its name, its class, its filtered
properties and the hashes of its children. What is fed to the hasher is a list of bytes; the hash
function itself, the rounding of floats and the texts and digests of other crates are parameters.
-/

namespace Roxo

open AssocMap Forest WeakDom

/-- What hashing uses of other code. -/
class Hashing where
  /-- `Hasher::finalize` after all that it was fed, as the bytes of the hash. -/
  finalize : List UInt8 → List UInt8
  length_finalize : ∀ bytes, (finalize bytes).length = 32
  /-- `(value * 10.0).round() / 10.0`. -/
  roundF32 : F32 → F32
  roundF64 : F64 → F64
  /-- `Ref::to_string`. -/
  refText : Ref → String
  /-- `SharedString::hash` and `NetAssetRef::hash`. -/
  contentHash : List UInt8 → List UInt8
  length_contentHash : ∀ bytes, (contentHash bytes).length = 32

/-- The first bytes in place of a hash, to evaluate the model with. -/
@[reducible] def Hashing.truncated : Hashing where
  finalize bytes := (bytes ++ List.replicate 32 0).take 32
  length_finalize bytes := by simp
  roundF32 n := n
  roundF64 n := n
  refText referent := toString (referent.id.getD 0)
  contentHash bytes := (bytes ++ List.replicate 32 0).take 32
  length_contentHash bytes := by simp

/-! ## Values -/

/-- `str::as_bytes`. -/
def asBytes (s : String) : List UInt8 := s.toByteArray.data.toList

/-- `to_le_bytes` of a number of `8 * n` bits. -/
def toLeBytes (n : ℕ) {w : ℕ} (number : BitVec w) : List UInt8 :=
  (List.range n).map fun i => ⟨number.extractLsb' (8 * i) 8⟩

def roundHash32 [Hashing] (n : F32) : List UInt8 := toLeBytes 4 (Hashing.roundF32 n).bits

def vectorHash [Hashing] (v : Vector3) : List UInt8 :=
  roundHash32 v.x ++ roundHash32 v.y ++ roundHash32 v.z

def cframeHash [Hashing] (cframe : CFrame) : List UInt8 :=
  vectorHash cframe.position ++ vectorHash cframe.orientation.x ++
    vectorHash cframe.orientation.y ++ vectorHash cframe.orientation.z

def vector3int16Bytes (v : Vector3int16) : List UInt8 :=
  toLeBytes 2 v.x.toBitVec ++ toLeBytes 2 v.y.toBitVec ++ toLeBytes 2 v.z.toBitVec

def fontBytes (font : Font) : List UInt8 :=
  toLeBytes 2 font.weight.toBitVec ++ toLeBytes 1 font.style.toBitVec ++ asBytes font.family ++
    match font.cachedFaceId with
    | some cache => 1 :: asBytes cache
    | none => [0]

def contentBytes [Hashing] : Content → List UInt8
  | .none => [0]
  | .uri uri => 1 :: asBytes uri
  | .object referent => 2 :: asBytes (Hashing.refText referent)

def physicalBytes [Hashing] : PhysicalProperties → List UInt8
  | .default => [0]
  | .custom custom => 0 :: (roundHash32 custom.density ++ roundHash32 custom.friction ++
      roundHash32 custom.elasticity ++ roundHash32 custom.frictionWeight ++
      roundHash32 custom.elasticityWeight ++ roundHash32 custom.acousticAbsorption)

def tagsBytes (tags : List String) : List UInt8 := (tags.mergeSort (· ≤ ·)).flatMap asBytes

/-- The arms of `hash_variant` for the kinds without nested variants. -/
def hashValue [Hashing] : Value → MayPanic (List UInt8)
  | .axes bits => some [bits]
  | .binaryString bytes => some bytes
  | .bool b => some [if b then 1 else 0]
  | .brickColor number => some (toLeBytes 2 number.toBitVec)
  | .cframe cframe => some (cframeHash cframe)
  | .color3 color => some (roundHash32 color.r ++ roundHash32 color.g ++ roundHash32 color.b)
  | .color3uint8 color => some [color.r, color.b, color.g]
  | .colorSequence keypoints => do
    let sorted ← sortByTime (fun k => Hashing.roundF32 (ColorSequenceKeypoint.time k)) keypoints
    some (sorted.flatMap fun k => roundHash32 k.time ++ roundHash32 k.color.r ++
      roundHash32 k.color.g ++ roundHash32 k.color.b)
  | .content content => some (contentBytes content)
  | .contentId uri => some (asBytes uri)
  | .enum value => some (toLeBytes 4 value.toBitVec)
  | .enumItem ty value => some (asBytes ty ++ toLeBytes 4 value.toBitVec)
  | .faces bits => some [bits]
  | .float32 n => some (roundHash32 n)
  | .float64 n => some (toLeBytes 8 (Hashing.roundF64 n).bits)
  | .font font => some (fontBytes font)
  | .int32 n => some (toLeBytes 4 n.toBitVec)
  | .int64 n => some (toLeBytes 8 n.toBitVec)
  | .materialColors encoded => some encoded
  | .netAssetRef bytes => some (Hashing.contentHash bytes)
  | .numberRange min max => some (roundHash32 max ++ roundHash32 min)
  | .numberSequence keypoints => do
    let sorted ← sortByTime (fun k => Hashing.roundF32 (NumberSequenceKeypoint.time k)) keypoints
    some (sorted.flatMap fun k => roundHash32 k.time ++ roundHash32 k.value ++
      roundHash32 k.envelope)
  | .optionalCFrame (some cframe) => some (1 :: cframeHash cframe)
  | .optionalCFrame none => some [0]
  | .physicalProperties properties => some (physicalBytes properties)
  | .ray origin direction => some (vectorHash origin ++ vectorHash direction)
  | .rect min max =>
    some (roundHash32 max.x ++ roundHash32 max.y ++ roundHash32 min.x ++ roundHash32 min.y)
  | .ref referent => some (asBytes (Hashing.refText referent))
  | .region3 min max => some (vectorHash max ++ vectorHash min)
  | .region3int16 min max => some (vector3int16Bytes max ++ vector3int16Bytes min)
  | .securityCapabilities bits => some (toLeBytes 8 bits.toBitVec)
  | .sharedString bytes => some (Hashing.contentHash bytes)
  | .string s => some (asBytes s)
  | .tags tags => some (tagsBytes tags)
  | .udim d => some (roundHash32 d.scale ++ toLeBytes 4 d.offset.toBitVec)
  | .udim2 x y => some (roundHash32 y.scale ++ toLeBytes 4 y.offset.toBitVec ++
      roundHash32 x.scale ++ toLeBytes 4 x.offset.toBitVec)
  | .vector2 v => some (roundHash32 v.x ++ roundHash32 v.y)
  | .vector2int16 v => some (toLeBytes 2 v.x.toBitVec ++ toLeBytes 2 v.y.toBitVec)
  | .vector3 v => some (vectorHash v)
  | .vector3int16 v => some (vector3int16Bytes v)
  -- hashing `UniqueId` properties doesn't make sense
  | .uniqueId _ => some []

mutual

/-- What `hash_variant` feeds to the hasher. -/
def hashVariant [Hashing] : Variant → MayPanic (List UInt8)
  | .attributes attributes => hashAttributes attributes
  | .value value => hashValue value

/-- The loop over the attributes, whose entries are sorted by their names already. -/
def hashAttributes [Hashing] : List (String × Variant) → MayPanic (List UInt8)
  | [] => some []
  | (name, value) :: attributes => do
    let bytes ← hashVariant value
    let rest ← hashAttributes attributes
    some (asBytes name ++ bytes ++ rest)

end

/-! ## Instances -/

section Instances

variable [ReflectionDatabase] [FloatCmp] [Hashing]

/-- The value is the default one of its class. -/
def isDefaultValue (className name : String) (value : Variant) : MayPanic Bool :=
  match defaultProperty className name with
  | some default => variantEq default value
  | none => some false

/-- What a property feeds to the hasher after its name: nothing for a default. -/
def propertyBytes (className name : String) (value : Variant) : MayPanic (List UInt8) := do
  let isDefault ← isDefaultValue className name value
  if isDefault then some [] else hashVariant value

/-- The loop over the sorted properties. -/
def hashProperties (className : String) : List (String × Variant) → MayPanic (List UInt8)
  | [] => some []
  | (name, value) :: properties => do
    let bytes ← propertyBytes className name value
    let rest ← hashProperties className properties
    some (asBytes name ++ bytes ++ rest)

/-- The order in which properties are hashed. -/
def sortProperties (propList : List (String × Variant)) : List (String × Variant) :=
  propList.mergeSort fun a b => a.1 ≤ b.1

/-- `hash_inst_prefilled`. -/
def hashInstPrefilled (inst : Instance) (propList : List (String × Variant)) :
    MayPanic (List UInt8) := do
  let properties ← hashProperties inst.className (sortProperties propList)
  some (asBytes inst.name ++ asBytes inst.className ++ properties)

/-- `hash_inst_filtered`. -/
def hashInstFiltered (rules : Option SyncbackRules) (inst : Instance) :
    MayPanic (List UInt8) := do
  let propList ← filterProperties rules inst
  hashInstPrefilled inst propList

/-! ## Trees -/

/-- The hashes of the children, which must have been hashed before. -/
def childHashes (map : Map Ref (List UInt8)) : List Ref → MayPanic (List (List UInt8))
  | [] => some []
  | childRef :: children => do
    let hash ← map.lookup childRef
    let hashes ← childHashes map children
    some (hash :: hashes)

/-- All that is fed to the hasher for an instance whose children are hashed in the map. -/
def hashInput (rules : Option SyncbackRules) (map : Map Ref (List UInt8)) (inst : Instance) :
    MayPanic (List UInt8) := do
  let bytes ← hashInstFiltered rules inst
  let hashes ← childHashes map inst.children
  some (bytes ++ (hashes.mergeSort (· ≤ ·)).flatten)

variable {D : Type} [WeakDom D]

/-- The loop of `hash_tree`, which takes the instances from the end of their list. -/
def hashLoop (rules : Option SyncbackRules) (dom : D) :
    List Ref → Map Ref (List UInt8) → MayPanic (Map Ref (List UInt8))
  | [], map => some map
  | referent :: order, map => do
    let inst ← getByRef dom referent
    let input ← hashInput rules map inst
    hashLoop rules dom order (map.insert referent (Hashing.finalize input))

/-- The hash of every instance of a subtree, its properties and descendants included. -/
def hashTree [FiniteWeakDom D] (rules : Option SyncbackRules) (dom : D) (rootRef : Ref) :
    MayPanic (Map Ref (List UInt8)) := do
  let order ← descendants dom rootRef
  hashLoop rules dom order.reverse ∅

/-- The hash of an instance alone. -/
def hashInstance (rules : Option SyncbackRules) (dom : D) (referent : Ref) :
    MayPanic (Option (List UInt8)) :=
  match getByRef dom referent with
  | some inst => do
    let bytes ← hashInstFiltered rules inst
    some (some (Hashing.finalize bytes))
  | none => some none

end Instances

end Roxo
