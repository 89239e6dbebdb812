import Mathlib.Logic.Function.Basic
import Roxo.Library.Forest

/-!
# The DOM of the engine

The instances of Studio as the plugin sees them: a reference to an instance is a number, an
instance has a name, a class, properties and a parent, and its children come in the order in which
they were given their parent. What the plugin does not decide itself (which classes can be created,
which properties can be written, what is read back) belongs to `Engine`.
-/

namespace Roxo.Plugin

open Forest

/-- A reference to an instance of the engine. -/
abbrev Handle := ℕ

inductive Scriptability where
  | none
  | read
  | readWrite
  | write
  | custom
  deriving DecidableEq, Repr

structure PropertyDescriptor where
  name : String
  scriptability : Scriptability
  deriving DecidableEq, Repr

/-- A value in the engine: an instance, or one of the other values, `nil` included. -/
inductive LuaValue (V : Type) where
  | inst (instance' : Handle)
  | other (value : V)
  deriving DecidableEq, Repr

/-- What the engine and its reflection database decide. -/
class Engine (V : Type) where
  /-- `Instance.new` succeeds for the class. -/
  creatable : String → Bool
  /-- Instances of the class are `ValueBase` instances. -/
  isValueBase : String → Bool
  /-- `RbxDom.findCanonicalPropertyDescriptor`. -/
  findCanonicalPropertyDescriptor : String → String → Option PropertyDescriptor
  /-- What a property of an instance of the class holds after a value has been written to it,
  unless that fails. -/
  write : String → PropertyDescriptor → V → Option V
  /-- An instance can be written to the property. -/
  writesInstance : String → PropertyDescriptor → Bool
  /-- What is read from a property that holds a value, or that has not been written yet. -/
  read : String → PropertyDescriptor → Option (LuaValue V) → Option (LuaValue V)
  nil : V
  isNil : V → Bool
  /-- `trueEquals`, where no reference is concerned. -/
  trueEquals : LuaValue V → LuaValue V → Bool

structure Instance (V : Type) where
  name : String
  className : String
  archivable : Bool
  /-- The plugin may read the name, the class and `Archivable` of the instance and set its name. -/
  accessible : Bool
  /-- The parent of the instance cannot be set. -/
  locked : Bool
  /-- What has been written to the properties, by the names of their descriptors. -/
  properties : String → Option (LuaValue V)
  parent : Option Handle
  children : List Handle

structure Dom (V : Type) where
  /-- The references below it have been handed out. -/
  next : Handle
  instances : Handle → Instance V

/-- What `Instance.new` makes of a class. -/
def Instance.new (V : Type) (className : String) : Instance V where
  name := className
  className := className
  archivable := true
  accessible := true
  locked := false
  properties _ := none
  parent := none
  children := []

namespace Dom

variable {V : Type}

def parent (dom : Dom V) (inst : Handle) : Option Handle := (dom.instances inst).parent

/-- `GetChildren`. -/
def getChildren (dom : Dom V) (inst : Handle) : List Handle := (dom.instances inst).children

/-- The instances form a forest, in which parents and children agree. -/
structure WellFormed (dom : Dom V) : Prop where
  forest : IsForest dom.getChildren
  parent_iff : ∀ {a b}, b ∈ dom.getChildren a ↔ dom.parent b = some a
  below : ∀ {a b}, dom.parent b = some a → a < dom.next ∧ b < dom.next
  held : ∀ {a propertyName target}, a < dom.next →
    (dom.instances a).properties propertyName = some (.inst target) → target < dom.next

/-! ## Operations -/

def create (dom : Dom V) (className : String) : Handle × Dom V :=
  (dom.next,
    { next := dom.next + 1
      instances := Function.update dom.instances dom.next (.new V className) })

def modify (dom : Dom V) (inst : Handle) (f : Instance V → Instance V) : Dom V :=
  { dom with instances := Function.update dom.instances inst (f (dom.instances inst)) }

def setName (dom : Dom V) (inst : Handle) (name : String) : Dom V :=
  dom.modify inst fun i => { i with name }

/-- Take an instance out of the children of its parent. -/
def detach (dom : Dom V) (inst : Handle) : Dom V :=
  match dom.parent inst with
  | some old => dom.modify old fun i => { i with children := i.children.erase inst }
  | none => dom

/-- Put an instance behind the children of its new parent. -/
def attach (dom : Dom V) (inst : Handle) : Option Handle → Dom V
  | some new => dom.modify new fun i => { i with children := i.children ++ [inst] }
  | none => dom

/-- What setting `Parent` does where it is allowed. Setting the parent that it has does nothing. -/
def setParent (dom : Dom V) (inst : Handle) (parent : Option Handle) : Dom V :=
  if dom.parent inst = parent then dom
  else ((dom.detach inst).attach inst parent).modify inst fun i => { i with parent }

/-- `GetDescendants`. -/
def getDescendants (dom : Dom V) (inst : Handle) : List Handle :=
  bfs dom.getChildren (dom.next + 1) (dom.getChildren inst)

/-! ## Single instances -/

@[simp] theorem modify_next (dom : Dom V) (inst : Handle) (f : Instance V → Instance V) :
    (dom.modify inst f).next = dom.next := rfl

@[simp] theorem modify_self (dom : Dom V) (inst : Handle) (f : Instance V → Instance V) :
    (dom.modify inst f).instances inst = f (dom.instances inst) :=
  Function.update_self _ _ _

theorem modify_of_ne (dom : Dom V) {inst h : Handle} (f : Instance V → Instance V)
    (hne : h ≠ inst) : (dom.modify inst f).instances h = dom.instances h :=
  Function.update_of_ne hne _ _

theorem modify_modify (dom : Dom V) (inst : Handle) (f g : Instance V → Instance V) :
    (dom.modify inst f).modify inst g = dom.modify inst (g ∘ f) := by
  unfold modify
  simp

theorem modify_id (dom : Dom V) (inst : Handle) : dom.modify inst (fun i => i) = dom := by
  unfold modify
  simp

/-- What giving a parent to an instance without one does. -/
theorem setParent_instances {dom : Dom V} {inst : Handle} (hp : dom.parent inst = none)
    {parent : Option Handle} (hne : parent ≠ some inst) (h : Handle) :
    (dom.setParent inst parent).instances h =
      if h = inst then { dom.instances h with parent }
      else if parent = some h then
        { dom.instances h with children := dom.getChildren h ++ [inst] }
      else dom.instances h := by
  unfold setParent
  rw [hp]
  cases parent with
  | none =>
    have hnone : (dom.instances inst).parent = none := hp
    rw [if_pos rfl]
    by_cases hi : h = inst
    · subst hi
      rw [if_pos rfl, ← hnone]
    · rw [if_neg hi, if_neg (Option.some_ne_none h).symm]
  | some p =>
    have hpi : p ≠ inst := fun h => hne (congrArg some h)
    rw [if_neg (Option.some_ne_none p).symm]
    simp only [detach, hp, attach]
    by_cases hi : h = inst
    · subst hi
      rw [if_pos rfl, modify_self, modify_of_ne _ _ hpi.symm]
    · rw [if_neg hi, modify_of_ne _ _ hi]
      by_cases hh : h = p
      · subst hh
        rw [if_pos rfl, modify_self]
        rfl
      · rw [if_neg (fun h => hh (Option.some.inj h).symm), modify_of_ne _ _ hh]

@[simp] theorem setParent_next (dom : Dom V) (inst : Handle) (parent : Option Handle) :
    (dom.setParent inst parent).next = dom.next := by
  unfold setParent attach detach
  split_ifs
  · rfl
  · cases parent <;> cases dom.parent inst <;> rfl

/-! ## Properties -/

variable [Engine V]

/-- What writing a value leaves in a property. -/
def writtenValue (className : String) (descriptor : PropertyDescriptor) :
    LuaValue V → Option (LuaValue V)
  | .inst target => if Engine.writesInstance V className descriptor then some (.inst target) else none
  | .other value => (Engine.write className descriptor value).map .other

/-- Attempts to set a property on the given instance. Unknown properties are skipped. -/
def setProperty (dom : Dom V) (inst : Handle) (propertyName : String) (value : LuaValue V) :
    Bool × Dom V :=
  let className := (dom.instances inst).className
  match Engine.findCanonicalPropertyDescriptor V className propertyName with
  | none => (true, dom)
  | some descriptor =>
    if descriptor.scriptability = .none ∨ descriptor.scriptability = .read then (false, dom)
    else
      match writtenValue className descriptor value with
      | some held =>
        (true, dom.modify inst fun i =>
          { i with properties := Function.update i.properties descriptor.name (some held) })
      | none => (false, dom)

/-- Attempts to read a property from the given instance. -/
def getProperty (dom : Dom V) (inst : Handle) (propertyName : String) : Option (LuaValue V) :=
  let className := (dom.instances inst).className
  match Engine.findCanonicalPropertyDescriptor V className propertyName with
  | none => none
  | some descriptor =>
    if descriptor.scriptability = .none ∨ descriptor.scriptability = .write then none
    else
      Engine.read className descriptor ((dom.instances inst).properties descriptor.name)

end Dom

end Roxo.Plugin
