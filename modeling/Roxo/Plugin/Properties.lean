import Roxo.Plugin.ApplyPatch

/-!
# What assigning properties leaves

The loop over the properties of a table touches the properties of one instance and nothing else.
`heldAfter`, `unassigned` and `refsOf` say what it leaves, without the rest of the DOM.
-/

namespace Roxo.Plugin

open AssocMap

variable {V E : Type}

variable [Engine V] [Decoder E V]

variable (V) in
/-- What assigning a value to a property of the class does: it fails, it is skipped, or it leaves a
value under the name of a descriptor. -/
def assignment (className propertyName : String) (value : E) : Option (Option (String × V)) :=
  match (Decoder.decode value : Option V) with
  | none => none
  | some value =>
    match Engine.findCanonicalPropertyDescriptor V className propertyName with
    | none => some none
    | some descriptor =>
      if descriptor.scriptability = .none ∨ descriptor.scriptability = .read then none
      else (Engine.write className descriptor value).map fun value =>
        some (descriptor.name, value)

/-- The properties after one entry of a table. -/
def heldStep (className : String) (held : String → Option (LuaValue V))
    (e : Σ _ : String, EncodedValue E) : String → Option (LuaValue V) :=
  match e.2 with
  | .ref _ => held
  | .other value =>
    match assignment V className e.1 value with
    | some (some (name, value)) => Function.update held name (some (.other value))
    | _ => held

/-- The properties after the entries of a table. -/
def heldAfter (className : String) (held : String → Option (LuaValue V))
    (entries : List (Σ _ : String, EncodedValue E)) : String → Option (LuaValue V) :=
  entries.foldl (heldStep className) held

/-- The references in a table. -/
def refsOf (id : String) (inst : Handle) (entries : List (Σ _ : String, EncodedValue E)) :
    List DeferredRef :=
  entries.filterMap fun e =>
    match e.2 with
    | .ref refId => some ⟨id, inst, e.1, refId⟩
    | .other _ => none

variable (V) in
/-- The properties that cannot be assigned after one entry of a table. -/
def unassignedStep (className : String) (before : Map String (EncodedValue E))
    (e : Σ _ : String, EncodedValue E) : Map String (EncodedValue E) :=
  match e.2 with
  | .ref _ => before
  | .other value =>
    if assignment V className e.1 value = none then before.insert e.1 e.2 else before

variable (V) in
/-- The properties of a table that cannot be assigned. -/
def unassigned (className : String) (entries : List (Σ _ : String, EncodedValue E)) :
    Map String (EncodedValue E) :=
  entries.foldl (unassignedStep V className) ∅

/-- What one entry does to the properties of an instance of the class. -/
theorem assignProperty_eq {className : String} {state : Assigned V E} {inst : Handle}
    (hc : (state.dom.instances inst).className = className) (map : InstanceMap) (id : String)
    (e : Σ _ : String, EncodedValue E) :
    assignProperty map id inst state e.1 e.2 =
      { dom := state.dom.modify inst fun i =>
          { i with properties := heldStep className i.properties e }
        deferredRefs := state.deferredRefs ++ refsOf id inst [e]
        unappliedProperties := unassignedStep V className state.unappliedProperties e } := by
  obtain ⟨propertyName, virtualValue⟩ := e
  cases virtualValue with
  | ref refId =>
    simp only [assignProperty, heldStep, unassignedStep, refsOf]
    rw [Dom.modify_id]
    rfl
  | other value =>
    cases hd : (Decoder.decode value : Option V) with
    | none =>
      have ha : assignment V className propertyName value = none := by simp [assignment, hd]
      simp [assignProperty, decodeValue, heldStep, unassignedStep, refsOf, ha, hd, Dom.modify_id]
    | some v =>
      cases hf : Engine.findCanonicalPropertyDescriptor V className propertyName with
      | none =>
        have ha : assignment V className propertyName value = some none := by
          simp [assignment, hd, hf]
        simp [assignProperty, decodeValue, Dom.setProperty, heldStep, unassignedStep, refsOf, ha, hd,
          hc, hf, Dom.modify_id]
      | some descriptor =>
        by_cases hs : descriptor.scriptability = .none ∨ descriptor.scriptability = .read
        · have ha : assignment V className propertyName value = none := by
            simp [assignment, hd, hf, hs]
          simp [assignProperty, decodeValue, Dom.setProperty, heldStep, unassignedStep, refsOf, ha,
            hd, hc, hf, hs, Dom.modify_id]
        · cases hw : Engine.write className descriptor v with
          | none =>
            have ha : assignment V className propertyName value = none := by
              simp [assignment, hd, hf, hw]
            simp [assignProperty, decodeValue, Dom.setProperty, Dom.writtenValue, heldStep,
              unassignedStep, refsOf, ha, hd, hc, hf, hs, hw, Dom.modify_id]
          | some held =>
            have ha : assignment V className propertyName value =
                some (some (descriptor.name, held)) := by
              simp [assignment, hd, hf, hs, hw]
            simp [assignProperty, decodeValue, Dom.setProperty, Dom.writtenValue, heldStep,
              unassignedStep, refsOf, ha, hd, hc, hf, hs, hw]

/-- What the loop over the properties leaves. -/
theorem assignProperties_eq {className : String} {dom : Dom V} {inst : Handle}
    (hc : (dom.instances inst).className = className) (map : InstanceMap) (id : String)
    (deferredRefs : List DeferredRef) (properties : Map String (EncodedValue E)) :
    assignProperties map id inst dom deferredRefs properties =
      { dom := dom.modify inst fun i =>
          { i with properties := heldAfter className i.properties properties.entries }
        deferredRefs := deferredRefs ++ refsOf id inst properties.entries
        unappliedProperties := unassigned V className properties.entries } := by
  unfold assignProperties
  suffices h : ∀ (entries : List (Σ _ : String, EncodedValue E)) (state : Assigned V E),
      (state.dom.instances inst).className = className →
      entries.foldl (fun state e => assignProperty map id inst state e.1 e.2) state =
        { dom := state.dom.modify inst fun i =>
            { i with properties := heldAfter className i.properties entries }
          deferredRefs := state.deferredRefs ++ refsOf id inst entries
          unappliedProperties :=
            entries.foldl (unassignedStep V className) state.unappliedProperties } from
    h properties.entries ⟨dom, deferredRefs, ∅⟩ hc
  intro entries
  induction entries with
  | nil =>
    intro state hc
    simp only [List.foldl_nil, heldAfter, refsOf, List.filterMap_nil, List.append_nil]
    rw [Dom.modify_id]
  | cons e entries ih =>
    intro state hc
    rw [List.foldl_cons, assignProperty_eq hc, ih _ (by simp [hc]), Dom.modify_modify]
    have hrefs : refsOf id inst [e] ++ refsOf id inst entries = refsOf id inst (e :: entries) := by
      unfold refsOf
      rw [← List.filterMap_append]
      rfl
    simp only [List.append_assoc, hrefs]
    rfl

/-- Where an instance is held, it was held before. -/
theorem heldAfter_inst {className : String} {entries : List (Σ _ : String, EncodedValue E)}
    {held : String → Option (LuaValue V)} {n : String} {target : Handle}
    (h : heldAfter className held entries n = some (.inst target)) :
    held n = some (.inst target) := by
  induction entries generalizing held with
  | nil => exact h
  | cons e entries ih =>
    have hstep := ih h
    obtain ⟨name, value⟩ := e
    cases value with
    | ref refId => exact hstep
    | other value =>
      unfold heldStep at hstep
      cases ha : assignment V className name value with
      | none => simpa [ha] using hstep
      | some found =>
        cases found with
        | none => simpa [ha] using hstep
        | some found =>
          obtain ⟨property, written⟩ := found
          simp only [ha] at hstep
          by_cases hn : n = property
          · subst hn
            rw [Function.update_self, Option.some.injEq] at hstep
            cases hstep
          · rwa [Function.update_of_ne hn] at hstep

end Roxo.Plugin
