import Roxo.Plugin.InstanceMap

/-!
# Patches of the plugin

Virtual instances as the server sends them and the patches between them and the DOM. A table is
its entries in the order in which `pairs` gives them.
-/

namespace Roxo.Plugin

open AssocMap

/-- A value encoded by the server: a reference to an id, or one of the other values. -/
inductive EncodedValue (E : Type) where
  | ref (refId : String)
  | other (value : E)
  deriving DecidableEq, Repr

/-- `RbxDom.EncodedValue.decode`. -/
class Decoder (E V : Type) where
  decode : E → Option V

structure InstanceMetadata where
  ignoreUnknownInstances : Option Bool
  deriving DecidableEq, Repr

structure VirtualInstance (E : Type) where
  id : String
  parent : Option String
  name : String
  className : String
  properties : Map String (EncodedValue E)
  metadata : Option InstanceMetadata
  children : List String

/-- What a patch removes: an instance by its id, or an instance. -/
inductive Removed where
  | id (id : String)
  | inst (instance' : Handle)
  deriving DecidableEq, Repr

structure Update (E : Type) where
  id : String
  changedName : Option String
  changedClassName : Option String
  changedProperties : Map String (EncodedValue E)
  changedMetadata : Option InstanceMetadata

structure PatchSet (E : Type) where
  removed : List Removed
  added : Map String (VirtualInstance E)
  updated : List (Update E)

namespace PatchSet

variable {E : Type}

/-- Create a new, empty patch. -/
def newEmpty : PatchSet E where
  removed := []
  added := ∅
  updated := []

def isEmpty (patchSet : PatchSet E) : Bool :=
  patchSet.removed.isEmpty && patchSet.added.entries.isEmpty && patchSet.updated.isEmpty

/-- Merge a patch into the given one. -/
def assign (target source : PatchSet E) : PatchSet E where
  removed := target.removed ++ source.removed
  added := extend target.added (toList source.added)
  updated := target.updated ++ source.updated

end PatchSet

variable {V E : Type}

/-- Transforms a value encoded by the server into a value of the engine. -/
def decodeValue [Engine V] [Decoder E V] (encodedValue : EncodedValue E) (map : InstanceMap) :
    Option (LuaValue V) :=
  match encodedValue with
  | .ref refId =>
    if refId = "00000000000000000000000000000000" then some (.other (Engine.nil : V))
    else (map.fromIds.lookup refId).map .inst
  | .other value => (Decoder.decode value).map .other

end Roxo.Plugin
