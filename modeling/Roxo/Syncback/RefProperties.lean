import Roxo.Snapshot.Patch
import Roxo.Snapshot.Tree
import Roxo.SnapshotMiddleware.MetaFile
import Roxo.Syncback.Descendants

/-!
# Referent linking

`collect_referents` walks a DOM and notes its `Ref` properties and the targets that need an id;
`link_referents` writes the ids and the properties down as attributes, possibly after the DOM has
been pruned. The order in which hash maps and hash sets are iterated is an argument.
-/

namespace Roxo

open AssocMap Forest WeakDom

structure RefLink where
  /-- The name of a property. -/
  name : String
  /-- The value of the property. -/
  value : Ref
  deriving DecidableEq, Repr

structure RefLinks where
  /-- A map of referents to each of their `Ref` properties. -/
  propLinks : MultiMap Ref RefLink
  /-- The referents that need their id rewritten, those without an existing id included. -/
  needRewrite : List Ref

/-- What linking uses of other code. -/
class UniqueIds where
  /-- `UniqueId::to_string`. -/
  text : UniqueId → String

/-! ## Attributes -/

/-- `VariantType` of a value, as it is printed. -/
def Variant.ty : Variant → String
  | .attributes _ => "Attributes"
  | .value (.axes _) => "Axes"
  | .value (.binaryString _) => "BinaryString"
  | .value (.bool _) => "Bool"
  | .value (.brickColor _) => "BrickColor"
  | .value (.cframe _) => "CFrame"
  | .value (.color3 _) => "Color3"
  | .value (.color3uint8 _) => "Color3uint8"
  | .value (.colorSequence _) => "ColorSequence"
  | .value (.content _) => "Content"
  | .value (.contentId _) => "ContentId"
  | .value (.enum _) => "Enum"
  | .value (.enumItem ..) => "EnumItem"
  | .value (.faces _) => "Faces"
  | .value (.float32 _) => "Float32"
  | .value (.float64 _) => "Float64"
  | .value (.font _) => "Font"
  | .value (.int32 _) => "Int32"
  | .value (.int64 _) => "Int64"
  | .value (.materialColors _) => "MaterialColors"
  | .value (.netAssetRef _) => "NetAssetRef"
  | .value (.numberRange ..) => "NumberRange"
  | .value (.numberSequence _) => "NumberSequence"
  | .value (.optionalCFrame _) => "OptionalCFrame"
  | .value (.physicalProperties _) => "PhysicalProperties"
  | .value (.ray ..) => "Ray"
  | .value (.rect ..) => "Rect"
  | .value (.ref _) => "Ref"
  | .value (.region3 ..) => "Region3"
  | .value (.region3int16 ..) => "Region3int16"
  | .value (.securityCapabilities _) => "SecurityCapabilities"
  | .value (.sharedString _) => "SharedString"
  | .value (.string _) => "String"
  | .value (.tags _) => "Tags"
  | .value (.udim _) => "UDim"
  | .value (.udim2 ..) => "UDim2"
  | .value (.uniqueId _) => "UniqueId"
  | .value (.vector2 _) => "Vector2"
  | .value (.vector2int16 _) => "Vector2int16"
  | .value (.vector3 _) => "Vector3"
  | .value (.vector3int16 _) => "Vector3int16"

/-- The attributes of an instance, none if it has no such property. -/
def attributesProperty (inst : Instance) : Fallible (List (String × Variant)) :=
  match inst.properties.lookup "Attributes" with
  | some (.attributes attributes) => .ok attributes
  | none => .ok []
  | some value =>
    Fallible.bail
      s!"expected Attributes to be of type 'Attributes' but it was of type '{value.ty}'"

/-- The id that an instance has in its attributes. -/
def getExistingId (inst : Instance) : Option String :=
  match inst.properties.lookup "Attributes" with
  | some (.attributes attributes) => (attributes.lookup refIdAttributeName).bind attributeString
  | _ => none

/-- An instance with the given attributes. -/
def Instance.withAttributes (inst : Instance) (attributes : List (String × Variant)) : Instance :=
  { inst with properties := inst.properties.insert "Attributes" (.attributes attributes) }

variable {D : Type} [WeakDom D]

/-! ## Collecting -/

structure CollectState where
  ids : Map String Ref
  needRewrite : List Ref
  links : MultiMap Ref RefLink

/-- The link that a property is, unless it points to nothing. -/
def refLink (dom : D) (propName : String) (propValue : Variant) : Option RefLink :=
  match propValue with
  | .ref value =>
    if value.isNone then none
    else
      match getByRef dom value with
      | some _ => some ⟨propName, value⟩
      | none => none
  | _ => none

/-- What is noted of a link: the target needs an id if it has none, or if the last target that was
seen with its id is another instance. -/
def collectLink (dom : D) (instRef : Ref) (state : CollectState) (link : RefLink) :
    CollectState :=
  match (getByRef dom link.value).bind getExistingId with
  | some id =>
    { ids := state.ids.insert id link.value
      needRewrite :=
        match state.ids.lookup id with
        | some idRef =>
          if idRef ≠ link.value then state.needRewrite.insert link.value else state.needRewrite
        | none => state.needRewrite
      links := state.links.insert instRef link }
  | none =>
    { state with
      needRewrite := state.needRewrite.insert link.value
      links := state.links.insert instRef link }

/-- The loop over the properties of an instance. -/
def collectProperties (dom : D) (instRef : Ref) (state : CollectState) :
    List (String × Variant) → CollectState
  | [] => state
  | (propName, propValue) :: properties =>
    match refLink dom propName propValue with
    | some link => collectProperties dom instRef (collectLink dom instRef state link) properties
    | none => collectProperties dom instRef state properties

/-- The queue loop of `collect_referents`, with its fuel. -/
def collectLoop (dom : D) : ℕ → List Ref → CollectState → MayPanic CollectState
  | _, [], state => some state
  | 0, _ :: _, _ => none
  | n + 1, instRef :: queue, state => do
    let pointer ← getByRef dom instRef
    collectLoop dom n (queue ++ pointer.children)
      (collectProperties dom instRef state (toList pointer.properties))

/-- Iterates through a DOM and collects referent properties. -/
def collectReferents [FiniteWeakDom D] (dom : D) : MayPanic RefLinks := do
  let state ← collectLoop dom (domFuel dom) [rootRef dom] ⟨∅, [], MultiMap.new⟩
  some ⟨state.links, state.needRewrite⟩

/-! ## Linking -/

section Linking

variable [UniqueIds]

/-- The id that an instance is given: its `UniqueId`, or else a new one. -/
def newId (now : Ref → UniqueId) (referent : Ref) (inst : Instance) : String :=
  match inst.properties.lookup "UniqueId" with
  | some (.value (.uniqueId id)) => UniqueIds.text id
  | _ => UniqueIds.text (now referent)

/-- One round of `write_id_attributes`. -/
def writeId (now : Ref → UniqueId) (dom : D) (referent : Ref) : Fallible D :=
  match getByRef dom referent with
  | some inst => do
    let attributes ← attributesProperty inst
    .ok (write dom referent fun inst => inst.withAttributes
      (insertAttribute refIdAttributeName (.string (newId now referent inst)) attributes))
  | none => .ok dom

/-- Gives ids to the instances that need them. `now` is what `UniqueId::now` returns for them. -/
def writeIdAttributes (now : Ref → UniqueId) : List Ref → D → Fallible D
  | [], dom => .ok dom
  | referent :: needRewrite, dom => do
    let dom ← writeId now dom referent
    writeIdAttributes now needRewrite dom

end Linking

/-- The loop over the links of an instance, which fills the list of properties. -/
def gatherLinks (dom : D) : List RefLink → List (String × String) →
    Fallible (List (String × String))
  | [], propList => .ok propList
  | refLink :: properties, propList =>
    match getByRef dom refLink.value with
    | some propInst =>
      match getExistingId propInst with
      | some id => gatherLinks dom properties (propList ++ [(refLink.name, id)])
      | none => .error .panic
    | none => gatherLinks dom properties propList

/-- The attributes of an instance once its links are written. -/
def linkAttributes (attributes : List (String × Variant)) (propList : List (String × String)) :
    List (String × Variant) :=
  propList.foldl (fun attributes (propName, id) =>
      insertAttribute (refPointerAttributePrefix ++ propName) (.string id) attributes)
    (attributes.filter fun entry => (stripPrefix refPointerAttributePrefix entry.1).isNone)

/-- The loop over the map of links. The list of properties is drained when it is written. -/
def linkLoop : List (Ref × List RefLink) → D → List (String × String) → Fallible D
  | [], dom, _ => .ok dom
  | (instId, properties) :: links, dom, propList => do
    let propList ← gatherLinks dom properties propList
    match getByRef dom instId with
    | some inst => do
      let attributes ← attributesProperty inst
      linkLoop links
        (write dom instId fun inst => inst.withAttributes (linkAttributes attributes propList)) []
    | none => linkLoop links dom propList

/-- Writes the links to a DOM, with the ids that need to be written in the one order and the map
of links in the other. -/
def linkReferents [UniqueIds] (now : Ref → UniqueId) (needRewrite : List Ref)
    (propLinks : List (Ref × List RefLink)) (dom : D) : Fallible D := do
  let dom ← writeIdAttributes now needRewrite dom
  linkLoop propLinks dom []

end Roxo
