import Roxo.Plugin.Diff
import Roxo.Plugin.Updates

/-!
# Property values after assignments

When the properties of a table are different properties of the engine, assigning some of them leaves
in each what was written to it and does not disturb the others.
-/

namespace Roxo.Plugin

open AssocMap

variable {V E : Type} [Engine V] [Decoder E V]

/-- The entry leaves something under the name of a descriptor. -/
def Writes (V : Type) {E : Type} [Engine V] [Decoder E V] (className : String)
    (e : Σ _ : String, EncodedValue E) (name : String) (written : V) : Prop :=
  ∃ value, e.2 = .other value ∧ assignment V className e.1 value = some (some (name, written))

theorem heldStep_of_writes {className : String} {e : Σ _ : String, EncodedValue E} {name : String}
    {written : V} (h : Writes V className e name written) (held : String → Option (LuaValue V)) :
    heldStep className held e = Function.update held name (some (.other written)) := by
  obtain ⟨value, hv, ha⟩ := h
  unfold heldStep
  rw [hv]
  simp only [ha]

theorem heldStep_of_not_writes {className : String} {e : Σ _ : String, EncodedValue E}
    {name : String} (h : ∀ written, ¬ Writes V className e name written)
    (held : String → Option (LuaValue V)) : heldStep className held e name = held name := by
  obtain ⟨propertyName, virtualValue⟩ := e
  cases virtualValue with
  | ref refId => rfl
  | other value =>
    unfold heldStep
    cases ha : assignment V className propertyName value with
    | none => simp [ha]
    | some found =>
      cases found with
      | none => simp [ha]
      | some found =>
        obtain ⟨name', written⟩ := found
        simp only [ha]
        refine Function.update_of_ne ?_ _ _
        rintro rfl
        exact h written ⟨value, rfl, ha⟩

/-- What is held after the entries of a table: what one of them has written, or what was held. -/
theorem heldAfter_cases (className : String) (entries : List (Σ _ : String, EncodedValue E))
    (name : String) (held : String → Option (LuaValue V)) :
    (∃ e ∈ entries, ∃ written, Writes V className e name written ∧
      heldAfter className held entries name = some (.other written)) ∨
    ((∀ e ∈ entries, ∀ written, ¬ Writes V className e name written) ∧
      heldAfter className held entries name = held name) := by
  induction entries generalizing held with
  | nil => exact .inr ⟨by simp, rfl⟩
  | cons e entries ih =>
    rcases ih (heldStep className held e) with ⟨x, hx, written, hw, heq⟩ | ⟨hnone, heq⟩
    · exact .inl ⟨x, List.mem_cons_of_mem _ hx, written, hw, heq⟩
    · by_cases hw : ∃ written, Writes V className e name written
      · obtain ⟨written, hw⟩ := hw
        refine .inl ⟨e, List.mem_cons_self, written, hw, heq.trans ?_⟩
        rw [heldStep_of_writes hw, Function.update_self]
      · have hnot : ∀ written, ¬ Writes V className e name written := fun w h => hw ⟨w, h⟩
        refine .inr ⟨fun x hx => ?_, heq.trans (heldStep_of_not_writes hnot held)⟩
        rcases List.mem_cons.mp hx with rfl | hx
        · exact hnot
        · exact hnone x hx

/-- An assignment to a known property that goes through writes it. -/
theorem exists_write {className propertyName : String} {value : E} {decoded : V}
    {d : PropertyDescriptor} (ha : assignment V className propertyName value ≠ none)
    (hd : Decoder.decode value = some decoded)
    (hf : Engine.findCanonicalPropertyDescriptor V className propertyName = some d) :
    ∃ written, Engine.write className d decoded = some written ∧
      Writes V className ⟨propertyName, .other value⟩ d.name written := by
  have heq : assignment V className propertyName value =
      if d.scriptability = .none ∨ d.scriptability = .read then none
      else (Engine.write className d decoded).map fun value => some (d.name, value) := by
    unfold assignment
    simp only [hd, hf]
  rw [heq] at ha
  split_ifs at ha with hs
  · exact absurd rfl ha
  · obtain ⟨written, hw⟩ := Option.ne_none_iff_exists'.mp (mt Option.map_eq_none_iff.mpr ha)
    refine ⟨written, hw, value, rfl, ?_⟩
    rw [heq, if_neg hs, hw]
    rfl

/-- The class of a virtual instance can be created and its properties take their values: what is read
from one after a value of the table has been written to it is `trueEquals` to its own value. -/
structure Obliging (V : Type) {E : Type} [Engine V] [Decoder E V] (v : VirtualInstance E) :
    Prop where
  creatable : Engine.creatable V v.className = true
  assignable : Assignable V v.className v.properties.entries
  readBack : ∀ e ∈ v.properties.entries, ∀ e' ∈ v.properties.entries,
    ∀ (value : E) (decoded : V) d written x, e.2 = .other value →
      Decoder.decode value = some decoded →
      Engine.findCanonicalPropertyDescriptor V v.className e.1 = some d →
      Writes V v.className e' d.name written →
      Engine.read v.className d (some (.other written)) = some x →
      Engine.trueEquals x (.other decoded) = true

/-- What is read from a property of an instance is `trueEquals` to the virtual value. -/
def HasValue (dom : Dom V) (map : InstanceMap) (inst : Handle) (propertyName : String)
    (virtualValue : EncodedValue E) : Prop :=
  ∀ x decoded, dom.getProperty inst propertyName = some x →
    decodeValue virtualValue map = some decoded → Engine.trueEquals x decoded = true

theorem propertyChanged_eq_false {dom : Dom V} {map : InstanceMap} {inst : Handle}
    {propertyName : String} {value : E} :
    propertyChanged dom map inst propertyName (.other value) = false ↔
      HasValue dom map inst propertyName (.other value : EncodedValue E) := by
  unfold propertyChanged HasValue
  cases dom.getProperty inst propertyName with
  | none => simp
  | some x =>
    cases hd : (decodeValue (.other value) map : Option (LuaValue V)) with
    | none => simp
    | some decoded => simp

/-- After some of the properties have been assigned, those and the ones that had their value before
have their value. -/
theorem hasValue_of_assigned {v : VirtualInstance E} (ho : Obliging V v) {dom : Dom V}
    {map : InstanceMap} {inst : Handle} (hclass : (dom.instances inst).className = v.className)
    {held : String → Option (LuaValue V)} {changed : List (Σ _ : String, EncodedValue E)}
    (hsub : ∀ e ∈ changed, e ∈ v.properties.entries)
    (hheld : (dom.instances inst).properties = heldAfter v.className held changed)
    {e : Σ _ : String, EncodedValue E} (he : e ∈ v.properties.entries)
    (hbefore : e ∈ changed ∨ ∃ (dom₀ : Dom V) (map₀ : InstanceMap),
      (dom₀.instances inst).className = v.className ∧ (dom₀.instances inst).properties = held ∧
        HasValue dom₀ map₀ inst e.1 e.2) :
    HasValue dom map inst e.1 e.2 := by
  obtain ⟨value, hv⟩ := ho.assignable.other e he
  intro x decoded hx hdecoded
  rw [hv] at hdecoded
  obtain ⟨y, hy, rfl⟩ := Option.map_eq_some_iff.mp hdecoded
  unfold Dom.getProperty at hx
  simp only [hclass] at hx
  cases hf : Engine.findCanonicalPropertyDescriptor V v.className e.1 with
  | none => simp [hf] at hx
  | some d =>
    simp only [hf] at hx
    split_ifs at hx with hs
    rcases heldAfter_cases v.className changed d.name held with
      ⟨e', he', written, hw, heq⟩ | ⟨hnone, heq⟩
    · rw [hheld, heq] at hx
      exact ho.readBack e he e' (hsub e' he') value y d written x hv hy hf hw hx
    · rcases hbefore with hmem | ⟨dom₀, map₀, hclass₀, hheld₀, hvalue⟩
      · -- the property itself has been written
        obtain ⟨written, -, value', hv', ha⟩ := exists_write
          (ho.assignable.assigned e he value hv) hy hf
        exact absurd ⟨value', hv.trans hv', ha⟩ (hnone e hmem written)
      · refine hvalue x _ ?_ ?_
        · unfold Dom.getProperty
          simp only [hclass₀, hf, if_neg hs, hheld₀]
          rwa [hheld, heq] at hx
        · rw [hv]
          exact hdecoded

end Roxo.Plugin
