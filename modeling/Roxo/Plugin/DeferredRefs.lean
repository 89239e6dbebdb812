import Roxo.Plugin.Properties

/-!
# What assigning the deferred references does

The references are assigned one after the other when all instances exist. What an instance holds
afterwards depends on its own references only, and the map stays what it is.
-/

namespace Roxo.Plugin

open AssocMap

variable {V E : Type} [Engine V]

variable (V) in
/-- What assigning an instance to a property of the class does: it fails, it is skipped, or it
leaves the instance under the name of a descriptor. -/
def refAssignment (className propertyName : String) : Option (Option String) :=
  match Engine.findCanonicalPropertyDescriptor V className propertyName with
  | none => some none
  | some descriptor =>
    if descriptor.scriptability = .none ∨ descriptor.scriptability = .read then none
    else if Engine.writesInstance V className descriptor then some (some descriptor.name)
    else none

/-- The properties of an instance after one of its references. -/
def refStep (map : InstanceMap) (className : String) (held : String → Option (LuaValue V))
    (entry : DeferredRef) : String → Option (LuaValue V) :=
  match map.fromIds.lookup entry.refId, refAssignment V className entry.propertyName with
  | some target, some (some name) => Function.update held name (some (.inst target))
  | _, _ => held

variable (V) in
/-- A reference cannot be assigned to an instance of the class. -/
def RefFails (map : InstanceMap) (className propertyName refId : String) : Prop :=
  map.fromIds.lookup refId = none ∨ refAssignment V className propertyName = none

omit [Engine V] in
theorem mem_markFailed (entry : DeferredRef) (updated : List (Update E)) (id : String) :
    id ∈ (markFailed entry updated).map Update.id ↔
      id ∈ updated.map Update.id ∨ entry.id = id := by
  induction updated with
  | nil => simp [markFailed, eq_comm]
  | cons update rest ih =>
    unfold markFailed
    split_ifs with h
    · simp only [List.map_cons, List.mem_cons]
      grind
    · simp only [List.map_cons, List.mem_cons, ih, or_assoc]

/-- The references in `refs` have been assigned, as far as that is possible. -/
structure Referred (w w' : Work V E) (refs : List DeferredRef) : Prop where
  map : w'.map = w.map
  created : w'.created = w.created
  next : w'.dom.next = w.dom.next
  instances : ∀ h, w'.dom.instances h =
    { w.dom.instances h with
      properties := (refs.filter fun entry => entry.instance' = h).foldl
        (refStep w.map (w.dom.instances h).className) (w.dom.instances h).properties }
  removed : w'.unapplied.removed = w.unapplied.removed
  added : w'.unapplied.added = w.unapplied.added
  updated : ∀ id, id ∈ w'.unapplied.updated.map Update.id ↔
    id ∈ w.unapplied.updated.map Update.id ∨
      ∃ entry ∈ refs, entry.id = id ∧
        RefFails V w.map (w.dom.instances entry.instance').className entry.propertyName entry.refId

theorem applyDeferredRef_referred (w : Work V E) (entry : DeferredRef) :
    Referred w (applyDeferredRef w entry) [entry] := by
  have hsame : ∀ h, ([entry].filter fun entry => entry.instance' = h).foldl
      (refStep w.map (w.dom.instances h).className) (w.dom.instances h).properties =
      if entry.instance' = h then
        refStep w.map (w.dom.instances h).className (w.dom.instances h).properties entry
      else (w.dom.instances h).properties := by
    intro h
    by_cases hh : entry.instance' = h <;> simp [hh]
  -- where the assignment fails or is skipped the DOM stays what it is
  have hskip : (∀ held, refStep (V := V) w.map (w.dom.instances entry.instance').className held
      entry = held) → ∀ h, w.dom.instances h = { w.dom.instances h with
        properties := ([entry].filter fun entry => entry.instance' = h).foldl
          (refStep w.map (w.dom.instances h).className) (w.dom.instances h).properties } := by
    intro hs h
    rw [hsame]
    split_ifs with hh
    · subst hh
      rw [hs]
    · rfl
  unfold applyDeferredRef
  cases ht : w.map.fromIds.lookup entry.refId with
  | none =>
    exact
      { map := rfl, created := rfl, next := rfl
        instances := hskip fun held => by simp [refStep, ht]
        removed := rfl, added := rfl
        updated := fun id => by simp [mem_markFailed, RefFails, ht] }
  | some target =>
    have hfail : refAssignment V (w.dom.instances entry.instance').className entry.propertyName =
        none → Referred w { w with unapplied :=
          { w.unapplied with updated := markFailed entry w.unapplied.updated } } [entry] := by
      intro ha
      exact
        { map := rfl, created := rfl, next := rfl
          instances := hskip fun held => by simp [refStep, ht, ha]
          removed := rfl, added := rfl
          updated := fun id => by simp [mem_markFailed, RefFails, ha] }
    simp only [Dom.setProperty]
    cases hf : Engine.findCanonicalPropertyDescriptor V
        (w.dom.instances entry.instance').className entry.propertyName with
    | none =>
      have ha : refAssignment V (w.dom.instances entry.instance').className entry.propertyName =
          some none := by
        simp [refAssignment, hf]
      exact
        { map := rfl, created := rfl, next := rfl
          instances := hskip fun held => by simp [refStep, ht, ha]
          removed := rfl, added := rfl
          updated := fun id => by simp [RefFails, ht, ha] }
    | some descriptor =>
      simp only [Dom.writtenValue]
      by_cases hs : descriptor.scriptability = .none ∨ descriptor.scriptability = .read
      · rw [if_pos hs]
        exact hfail (by simp [refAssignment, hf, hs])
      · rw [if_neg hs]
        cases hwr : Engine.writesInstance V (w.dom.instances entry.instance').className
            descriptor with
        | false => exact hfail (by simp [refAssignment, hf, hwr])
        | true =>
          have ha : refAssignment V (w.dom.instances entry.instance').className
              entry.propertyName = some (some descriptor.name) := by
            simp [refAssignment, hf, hs, hwr]
          refine
            { map := rfl, created := rfl, next := rfl, instances := fun h => ?_
              removed := rfl, added := rfl
              updated := fun id => by simp [RefFails, ht, ha] }
          simp only [if_true]
          rw [hsame]
          by_cases hh : h = entry.instance'
          · subst hh
            rw [Dom.modify_self, if_pos rfl]
            simp [refStep, ht, ha]
          · rw [Dom.modify_of_ne _ _ hh, if_neg (Ne.symm hh)]

theorem Referred.trans {w w' w'' : Work V E} {refs refs' : List DeferredRef}
    (hr : Referred w w' refs) (hr' : Referred w' w'' refs') : Referred w w'' (refs ++ refs') where
  map := hr'.map.trans hr.map
  created := hr'.created.trans hr.created
  next := hr'.next.trans hr.next
  instances h := by
    rw [hr'.instances, hr.instances, List.filter_append, List.foldl_append, hr.map]
  removed := hr'.removed.trans hr.removed
  added := hr'.added.trans hr.added
  updated id := by
    have hclass : ∀ h, (w'.dom.instances h).className = (w.dom.instances h).className := by
      intro h
      rw [hr.instances]
    rw [hr'.updated, hr.updated, hr.map]
    simp only [hclass, List.mem_append]
    grind

/-- What `applyDeferredRefs` leaves. -/
theorem applyDeferredRefs_referred (w : Work V E) :
    Referred w (applyDeferredRefs w) w.deferredRefs := by
  unfold applyDeferredRefs
  suffices h : ∀ (refs : List DeferredRef) (w : Work V E),
      Referred w (refs.foldl applyDeferredRef w) refs from h _ w
  intro refs
  induction refs with
  | nil =>
    intro w
    exact
      { map := rfl, created := rfl, next := rfl, instances := fun _ => rfl, removed := rfl
        added := rfl, updated := fun id => by simp }
  | cons entry refs ih =>
    intro w
    rw [List.foldl_cons]
    exact (applyDeferredRef_referred w entry).trans (ih _)

end Roxo.Plugin
