import Roxo.Plugin.Properties

/-!
# Applying updates that change no class

Such an update sets the name and assigns the properties of the instance of its id. Updates of
different ids do not disturb each other.
-/

namespace Roxo.Plugin

open AssocMap

variable {V E : Type} [Engine V] [Decoder E V]

/-- Everything in a table can be assigned to instances of the class, and nothing is a reference. -/
structure Assignable (V : Type) {E : Type} [Engine V] [Decoder E V] (className : String)
    (entries : List (Σ _ : String, EncodedValue E)) : Prop where
  other : ∀ e ∈ entries, ∃ value, e.2 = .other value
  assigned : ∀ e ∈ entries, ∀ value, e.2 = .other value → assignment V className e.1 value ≠ none

theorem Assignable.refsOf_eq {className : String} {entries : List (Σ _ : String, EncodedValue E)}
    (ha : Assignable V className entries) (id : String) (inst : Handle) :
    refsOf id inst entries = [] := by
  refine List.filterMap_eq_nil_iff.mpr fun e he => ?_
  obtain ⟨value, hv⟩ := ha.other e he
  rw [hv]

theorem Assignable.unassigned_eq {className : String}
    {entries : List (Σ _ : String, EncodedValue E)} (ha : Assignable V className entries) :
    unassigned V className entries = ∅ := by
  have hstep : ∀ before, ∀ e ∈ entries, unassignedStep V className before e = before := by
    intro before e he
    obtain ⟨value, hv⟩ := ha.other e he
    unfold unassignedStep
    rw [hv]
    exact if_neg (ha.assigned e he value hv)
  unfold unassigned
  suffices h : ∀ l : List (Σ _ : String, EncodedValue E), (∀ e ∈ l, e ∈ entries) →
      l.foldl (unassignedStep V className) ∅ = ∅ from h entries fun _ he => he
  intro l
  induction l with
  | nil => exact fun _ => rfl
  | cons e l ih =>
    intro hsub
    rw [List.foldl_cons, hstep _ e (hsub e List.mem_cons_self)]
    exact ih fun x hx => hsub x (List.mem_cons_of_mem _ hx)

/-- The update is for a mapped instance and can be applied as a whole. -/
structure Applicable (w : Work V E) (u : Update E) (inst : Handle) : Prop where
  mapped : w.map.fromIds.lookup u.id = some inst
  sameClass : u.changedClassName = none
  sameMetadata : u.changedMetadata = none
  named : u.changedName = none ∨ (w.dom.instances inst).accessible = true
  assignable : Assignable V (w.dom.instances inst).className u.changedProperties.entries

/-- An instance after an update. -/
def Instance.update (i : Instance V) (u : Update E) : Instance V :=
  { i with
    name := u.changedName.getD i.name
    properties := heldAfter i.className i.properties u.changedProperties.entries }

/-- The updates have been applied, and nothing else has happened. -/
structure Updated (updates : List (Update E)) (w w' : Work V E) : Prop where
  inverse : w'.map.Inverse
  fromIds : ∀ i, w'.map.fromIds.lookup i = w.map.fromIds.lookup i
  created : w'.created = w.created
  deferredRefs : w'.deferredRefs = w.deferredRefs
  unapplied : w'.unapplied = w.unapplied
  next : w'.dom.next = w.dom.next
  updated : ∀ u ∈ updates, ∀ inst, w.map.fromIds.lookup u.id = some inst →
    w'.dom.instances inst = (w.dom.instances inst).update u
  others : ∀ inst, (∀ u ∈ updates, w.map.fromIds.lookup u.id ≠ some inst) →
    w'.dom.instances inst = w.dom.instances inst

/-- One update. -/
theorem exists_applyUpdated {w : Work V E} (hi : w.map.Inverse) {u : Update E} {inst : Handle}
    (ha : Applicable w u inst) :
    ∃ w', applyUpdated w u = some w' ∧ Updated [u] w w' := by
  -- the DOM once the name has been set
  obtain ⟨named, hnamed⟩ : ∃ dom : Dom V, dom = w.dom.modify inst fun i =>
      { i with name := u.changedName.getD i.name } := ⟨_, rfl⟩
  have hdom : w.dom.applyName inst u.changedName = named := by
    unfold Dom.applyName
    rw [hnamed]
    cases hname : u.changedName with
    | none => exact (w.dom.modify_id inst).symm
    | some name =>
      have hacc := ha.named.resolve_left (by rw [hname]; exact Option.some_ne_none _)
      simp only [hacc, if_true]
      rfl
  have hclass : (named.instances inst).className = (w.dom.instances inst).className := by
    rw [hnamed, Dom.modify_self]
  have hunnamed : (if (w.dom.instances inst).accessible then none else u.changedName) = none := by
    split_ifs with hacc
    · rfl
    · exact ha.named.resolve_right hacc
  have hmodify : named.modify inst (fun i => { i with
      properties := heldAfter (w.dom.instances inst).className i.properties
        u.changedProperties.entries }) = w.dom.modify inst (Instance.update · u) := by
    rw [hnamed, Dom.modify_modify]
    rfl
  refine ⟨{ w with
    map := w.map.pauseInstance inst
    dom := w.dom.modify inst (Instance.update · u) }, ?_, ?_⟩
  · unfold applyUpdated
    rw [ha.mapped]
    simp only [ha.sameClass, hdom, hunnamed, ha.sameMetadata]
    rw [assignProperties_eq hclass, ha.assignable.refsOf_eq, ha.assignable.unassigned_eq, hmodify,
      List.append_nil]
    rfl
  · exact
      { inverse := hi.pauseInstance inst
        fromIds := fun i => by
          change (w.map.pauseInstance inst).fromIds.lookup i = _
          rw [InstanceMap.pauseInstance_fromIds]
        created := rfl, deferredRefs := rfl, unapplied := rfl, next := rfl
        updated := by
          intro u' hu' inst' hinst'
          rw [List.mem_singleton.mp hu', ha.mapped, Option.some.injEq] at hinst'
          rw [List.mem_singleton.mp hu', ← hinst']
          exact w.dom.modify_self inst (Instance.update · u)
        others := by
          intro inst' hne
          refine w.dom.modify_of_ne (Instance.update · u) ?_
          rintro rfl
          exact hne u (List.mem_singleton_self u) ha.mapped }

/-- Updates of different ids, one after the other. -/
theorem exists_foldlM_applyUpdated {updates : List (Update E)} {w : Work V E}
    (hi : w.map.Inverse) (hnd : (updates.map Update.id).Nodup)
    (ha : ∀ u ∈ updates, ∃ inst, Applicable w u inst) :
    ∃ w', updates.foldlM applyUpdated w = some w' ∧ Updated updates w w' := by
  induction updates generalizing w with
  | nil =>
    exact ⟨w, rfl,
      { inverse := hi, fromIds := fun _ => rfl, created := rfl, deferredRefs := rfl
        unapplied := rfl, next := rfl, updated := by simp, others := fun _ _ => rfl }⟩
  | cons u updates ih =>
    rw [List.map_cons, List.nodup_cons] at hnd
    obtain ⟨inst, hu⟩ := ha u List.mem_cons_self
    obtain ⟨w₁, hrun₁, h₁⟩ := exists_applyUpdated hi hu
    -- the others are of other instances, which are what they were
    have hother : ∀ u' ∈ updates, ∀ inst', w.map.fromIds.lookup u'.id = some inst' →
        w₁.dom.instances inst' = w.dom.instances inst' := by
      intro u' hu' inst' hinst'
      refine h₁.others inst' fun u'' hu'' heq => hnd.1 ?_
      rw [List.mem_singleton.mp hu''] at heq
      rw [hi.eq_of_fromIds heq hinst']
      exact List.mem_map_of_mem hu'
    obtain ⟨w', hrun, h'⟩ := ih h₁.inverse hnd.2 fun u' hu' => by
      obtain ⟨inst', hap⟩ := ha u' (List.mem_cons_of_mem _ hu')
      have hsame := hother u' hu' inst' hap.mapped
      exact ⟨inst', (h₁.fromIds _).trans hap.mapped, hap.sameClass, hap.sameMetadata,
        hsame ▸ hap.named, hsame ▸ hap.assignable⟩
    refine ⟨w', ?_, ?_⟩
    · rw [List.foldlM_cons, hrun₁]
      exact hrun
    · exact
        { inverse := h'.inverse
          fromIds := fun i => (h'.fromIds i).trans (h₁.fromIds i)
          created := h'.created.trans h₁.created
          deferredRefs := h'.deferredRefs.trans h₁.deferredRefs
          unapplied := h'.unapplied.trans h₁.unapplied
          next := h'.next.trans h₁.next
          updated := by
            intro u' hu' inst' hinst'
            rcases List.mem_cons.mp hu' with rfl | hu'
            · rw [← h₁.updated u' (List.mem_singleton_self _) inst' hinst']
              refine h'.others inst' fun u'' hu'' heq => hnd.1 ?_
              rw [h₁.fromIds] at heq
              rw [hi.eq_of_fromIds hinst' heq]
              exact List.mem_map_of_mem hu''
            · rw [h'.updated u' hu' inst' ((h₁.fromIds _).trans hinst'),
                hother u' hu' inst' hinst']
          others := by
            intro inst' hne
            rw [h'.others inst' fun u' hu' => by
              rw [h₁.fromIds]
              exact hne u' (List.mem_cons_of_mem _ hu')]
            refine h₁.others inst' fun u' hu' => ?_
            rw [List.mem_singleton.mp hu']
            exact hne u List.mem_cons_self }

namespace Updated

variable {updates : List (Update E)} {w w' : Work V E} (hu : Updated updates w w')

include hu

theorem instance_cases (inst : Handle) : w'.dom.instances inst = w.dom.instances inst ∨
    ∃ u ∈ updates, w.map.fromIds.lookup u.id = some inst ∧
      w'.dom.instances inst = (w.dom.instances inst).update u := by
  by_cases h : ∃ u ∈ updates, w.map.fromIds.lookup u.id = some inst
  · obtain ⟨u, hmem, hmap⟩ := h
    exact .inr ⟨u, hmem, hmap, hu.updated u hmem inst hmap⟩
  · exact .inl (hu.others inst fun u hmem hmap => h ⟨u, hmem, hmap⟩)

theorem parent (inst : Handle) : w'.dom.parent inst = w.dom.parent inst := by
  unfold Dom.parent
  rcases hu.instance_cases inst with h | ⟨u, -, -, h⟩ <;> rw [h]
  rfl

theorem getChildren (inst : Handle) : w'.dom.getChildren inst = w.dom.getChildren inst := by
  unfold Dom.getChildren
  rcases hu.instance_cases inst with h | ⟨u, -, -, h⟩ <;> rw [h]
  rfl

/-- Updates keep the DOM well formed. -/
theorem wellFormed (hwf : w.dom.WellFormed) : w'.dom.WellFormed := by
  have hchildren : w'.dom.getChildren = w.dom.getChildren := funext hu.getChildren
  refine
    { forest := hchildren ▸ hwf.forest, parent_iff := fun {a b} => ?_, below := fun {a b} h => ?_
      held := fun {a name target} ha hx => ?_ }
  · rw [hchildren, hu.parent, hwf.parent_iff]
  · rw [hu.parent] at h
    rw [hu.next]
    exact hwf.below h
  · rw [hu.next] at ha ⊢
    rcases hu.instance_cases a with h | ⟨u, -, -, h⟩
    · rw [h] at hx
      exact hwf.held ha hx
    · rw [h] at hx
      exact hwf.held ha (heldAfter_inst hx)

end Updated

end Roxo.Plugin
