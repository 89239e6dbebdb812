import Roxo.Plugin.PatchSet

/-!
# The change batcher

The changes that the user makes to mapped instances are collected, as sets of property names, and
turned into a patch for the server. A set with `Parent` in it is about nothing else: unless the
instance was removed its other changes are dropped, and all changes arrive exactly if those could
not have been sent anyway (`losesNoChange_iff`).
-/

namespace Roxo.Plugin

open AssocMap

/-- `RbxDom.EncodedValue.encode`, for the data type of a descriptor. -/
class Encoder (E V : Type) where
  encode : LuaValue V → PropertyDescriptor → Option (EncodedValue E)

/-- A dictionary that maps instances to sets of property names. -/
abbrev PropertyChanges := Map Handle (List String)

section

variable {V E : Type} [Engine V] [Encoder E V]

def encodeProperty (dom : Dom V) (inst : Handle) (propertyDescriptor : PropertyDescriptor) :
    Option (EncodedValue E) :=
  let i := dom.instances inst
  let readResult :=
    if propertyDescriptor.scriptability = .none ∨ propertyDescriptor.scriptability = .write then
      none
    else Engine.read i.className propertyDescriptor (i.properties propertyDescriptor.name)
  match readResult with
  | none => none
  | some readResult => Encoder.encode readResult propertyDescriptor

/-- One pass of the loop over the properties of an instance. -/
def encodeChange (dom : Dom V) (inst : Handle) (update : Update E) (propertyName : String) :
    Update E :=
  if propertyName = "Name" then { update with changedName := some (dom.instances inst).name }
  else
    match Engine.findCanonicalPropertyDescriptor V (dom.instances inst).className propertyName with
    | none => update
    | some descriptor =>
      match (encodeProperty dom inst descriptor : Option (EncodedValue E)) with
      | none => update
      | some encodeResult =>
        { update with
          changedProperties := update.changedProperties.insert propertyName encodeResult }

/-- The update for an instance, if anything in it can be sent. -/
def encodePatchUpdate (dom : Dom V) (inst : Handle) (instanceId : String)
    (properties : List String) : Option (Update E) :=
  let update := properties.foldl (encodeChange dom inst) ⟨instanceId, none, none, ∅, none⟩
  if update.changedProperties.entries.isEmpty ∧ update.changedName = none then none
  else some update

/-- One pass of the loop over the instances, with what is left of the changes. -/
def addToPatch (dom : Dom V) (instanceMap : InstanceMap) (state : PatchSet E × PropertyChanges)
    (e : Σ _ : Handle, List String) : PatchSet E × PropertyChanges :=
  match instanceMap.fromInstances.lookup e.1 with
  | none => state
  | some instanceId =>
    let patch := state.1
    let patch :=
      if "Parent" ∈ e.2 then
        if dom.parent e.1 = none then
          { patch with removed := patch.removed ++ [.id instanceId] }
        -- changes of the parent to another one cannot be synced yet
        else patch
      else
        { patch with
          updated := patch.updated ++ (encodePatchUpdate dom e.1 instanceId e.2).toList }
    (patch, state.2.erase e.1)

/-- The patch for the changes, and the changes that are still pending. -/
def createPatchSet (dom : Dom V) (instanceMap : InstanceMap) (propertyChanges : PropertyChanges) :
    PatchSet E × PropertyChanges :=
  propertyChanges.entries.foldl (addToPatch dom instanceMap) (.newEmpty, propertyChanges)

/-! ## What may not be lost -/

variable (E) in
/-- The property has no canonical descriptor, or encoding it fails. -/
def CannotEncode (dom : Dom V) (inst : Handle) (propertyName : String) : Prop :=
  ∀ descriptor,
    Engine.findCanonicalPropertyDescriptor V (dom.instances inst).className propertyName =
      some descriptor → (encodeProperty dom inst descriptor : Option (EncodedValue E)) = none

/-- An update tells what a property has become. -/
def Update.Tells (dom : Dom V) (inst : Handle) (propertyName : String) (update : Update E) : Prop :=
  propertyName = "Name" ∧ update.changedName = some (dom.instances inst).name ∨
    ∃ descriptor encodeResult,
      Engine.findCanonicalPropertyDescriptor V (dom.instances inst).className propertyName =
        some descriptor ∧
      encodeProperty dom inst descriptor = some encodeResult ∧
      update.changedProperties.lookup propertyName = some encodeResult

/-- What an instance contributes to a patch: its removal or an update. -/
inductive Contribution (E : Type) where
  | removed (id : String)
  | updated (update : Update E)

def Contribution.id : Contribution E → String
  | .removed id => id
  | .updated update => update.id

def Contribution.removal : Contribution E → Option Removed
  | .removed id => some (.id id)
  | .updated _ => none

def Contribution.update : Contribution E → Option (Update E)
  | .removed _ => none
  | .updated update => some update

/-- No change of a mapped instance is lost, and no instance is in the patch twice. -/
structure LosesNoChange (E : Type) [Encoder E V] (dom : Dom V) (instanceMap : InstanceMap)
    (changes : PropertyChanges) : Prop where
  kept : ∀ inst properties id, changes.lookup inst = some properties →
    instanceMap.fromInstances.lookup inst = some id → ∀ propertyName ∈ properties,
      Removed.id id ∈ (createPatchSet (E := E) dom instanceMap changes).1.removed ∨
      (∃ update ∈ (createPatchSet (E := E) dom instanceMap changes).1.updated,
        update.id = id ∧ update.Tells dom inst propertyName) ∨
      (createPatchSet (E := E) dom instanceMap changes).2.lookup inst = some properties ∨
      CannotEncode E dom inst propertyName ∨
      propertyName = "Parent" ∧ dom.parent inst ≠ none
  once : ∃ contributions : Map Handle (Contribution E),
    (∀ inst contribution, contributions.lookup inst = some contribution →
      instanceMap.fromInstances.lookup inst = some contribution.id) ∧
    (createPatchSet (E := E) dom instanceMap changes).1.removed =
      contributions.entries.filterMap (·.2.removal) ∧
    (createPatchSet (E := E) dom instanceMap changes).1.updated =
      contributions.entries.filterMap (·.2.update)

/-- Where the parent of an instance has changed to another one, nothing else in its set could have
been sent. -/
def NothingWithParent (E : Type) [Encoder E V] (dom : Dom V) (instanceMap : InstanceMap)
    (changes : PropertyChanges) : Prop :=
  ∀ inst properties, changes.lookup inst = some properties →
    instanceMap.fromInstances.lookup inst ≠ none → "Parent" ∈ properties →
    dom.parent inst ≠ none → ∀ propertyName ∈ properties, propertyName ≠ "Parent" →
      CannotEncode E dom inst propertyName

/-! ## An update -/

section Update

variable {dom : Dom V} {inst : Handle} {properties : List String} {propertyName : String}
  {update : Update E}

/-- What is sent of a property other than the name. -/
def encodedChange (E : Type) [Encoder E V] (dom : Dom V) (inst : Handle) (propertyName : String) :
    Option (EncodedValue E) :=
  if propertyName = "Name" then none
  else
    (Engine.findCanonicalPropertyDescriptor V (dom.instances inst).className propertyName).bind
      (encodeProperty dom inst)

theorem encodeChange_id : (encodeChange dom inst update propertyName).id = update.id := by
  unfold encodeChange
  split_ifs
  · rfl
  · split
    · rfl
    · split <;> rfl

theorem encodeChange_changedName : (encodeChange dom inst update propertyName).changedName =
    if propertyName = "Name" then some (dom.instances inst).name else update.changedName := by
  unfold encodeChange
  split_ifs
  · rfl
  · split
    · rfl
    · split <;> rfl

theorem lookup_encodeChange (name : String) :
    (encodeChange dom inst update propertyName).changedProperties.lookup name =
      if name = propertyName then
        (encodedChange E dom inst propertyName).or (update.changedProperties.lookup name)
      else update.changedProperties.lookup name := by
  unfold encodeChange encodedChange
  split_ifs with hName hname hname
  · rfl
  · rfl
  · cases hd : Engine.findCanonicalPropertyDescriptor V (dom.instances inst).className
      propertyName with
    | none => rfl
    | some descriptor =>
      cases he : (encodeProperty dom inst descriptor : Option (EncodedValue E)) with
      | none =>
        simp only [he, Option.bind_some, Option.none_or]
      | some encodeResult =>
        simp only [he, Option.bind_some, Option.some_or]
        rw [lookup_insert_eq, if_pos hname]
  · cases hd : Engine.findCanonicalPropertyDescriptor V (dom.instances inst).className
      propertyName with
    | none => rfl
    | some descriptor =>
      cases he : (encodeProperty dom inst descriptor : Option (EncodedValue E)) with
      | none => simp only [he]
      | some encodeResult =>
        simp only [he]
        rw [lookup_insert_eq, if_neg hname]

theorem foldl_encodeChange_id :
    (properties.foldl (encodeChange dom inst) update).id = update.id := by
  induction properties generalizing update with
  | nil => rfl
  | cons propertyName properties ih => rw [List.foldl_cons, ih, encodeChange_id]

theorem foldl_encodeChange_changedName (dom : Dom V) (inst : Handle) (properties : List String)
    (update : Update E) :
    (properties.foldl (encodeChange dom inst) update).changedName =
      if "Name" ∈ properties then some (dom.instances inst).name else update.changedName := by
  induction properties generalizing update with
  | nil => rfl
  | cons propertyName properties ih =>
    rw [List.foldl_cons, ih, encodeChange_changedName]
    by_cases hfirst : propertyName = "Name"
    · rw [if_pos hfirst, if_pos (List.mem_cons.mpr (.inl hfirst.symm)), ite_self]
    · simp only [List.mem_cons, Ne.symm hfirst, hfirst, if_false, false_or]

theorem lookup_foldl_encodeChange (dom : Dom V) (inst : Handle) (properties : List String)
    (update : Update E) (name : String) :
    (properties.foldl (encodeChange dom inst) update).changedProperties.lookup name =
      if name ∈ properties then
        (encodedChange E dom inst name).or (update.changedProperties.lookup name)
      else update.changedProperties.lookup name := by
  induction properties generalizing update with
  | nil => rfl
  | cons propertyName properties ih =>
    rw [List.foldl_cons, ih, lookup_encodeChange]
    by_cases hname : name = propertyName
    · subst hname
      rw [if_pos rfl, if_pos List.mem_cons_self, ← Option.or_assoc, Option.or_self, ite_self]
    · simp only [hname, if_false, List.mem_cons, false_or]

/-- An update tells of every property that can be encoded. -/
theorem encodePatchUpdate_tells (id : String) (hmem : propertyName ∈ properties) :
    CannotEncode E dom inst propertyName ∨
      ∃ update : Update E, encodePatchUpdate dom inst id properties = some update ∧
        update.id = id ∧ update.Tells dom inst propertyName := by
  have hid : (properties.foldl (encodeChange dom inst) (⟨id, none, none, ∅, none⟩ : Update E)).id =
      id := foldl_encodeChange_id
  have hchangedName := foldl_encodeChange_changedName dom inst properties
    (⟨id, none, none, ∅, none⟩ : Update E)
  have hlookup := lookup_foldl_encodeChange dom inst properties
    (⟨id, none, none, ∅, none⟩ : Update E) propertyName
  rw [if_pos hmem] at hlookup
  by_cases hname : propertyName = "Name"
  · rw [if_pos (hname ▸ hmem)] at hchangedName
    refine .inr ⟨_, ?_, hid, .inl ⟨hname, hchangedName⟩⟩
    unfold encodePatchUpdate
    rw [if_neg]
    rintro ⟨-, hnone⟩
    rw [hchangedName] at hnone
    cases hnone
  · cases hd : Engine.findCanonicalPropertyDescriptor V (dom.instances inst).className
      propertyName with
    | none =>
      refine .inl fun descriptor hdescriptor => ?_
      rw [hd] at hdescriptor
      cases hdescriptor
    | some descriptor =>
      cases he : (encodeProperty dom inst descriptor : Option (EncodedValue E)) with
      | none =>
        refine .inl fun descriptor' hdescriptor => ?_
        rw [hd] at hdescriptor
        rw [← Option.some.inj hdescriptor]
        exact he
      | some encodeResult =>
        unfold encodedChange at hlookup
        rw [if_neg hname, hd, Option.bind_some, he, Option.some_or] at hlookup
        refine .inr ⟨_, ?_, hid, .inr ⟨descriptor, encodeResult, hd, he, hlookup⟩⟩
        unfold encodePatchUpdate
        rw [if_neg]
        rintro ⟨hempty, -⟩
        have hmem := AList.mem_lookup_iff.mp hlookup
        rw [List.isEmpty_iff.mp hempty] at hmem
        cases hmem

theorem encodePatchUpdate_id {id : String}
    (h : encodePatchUpdate dom inst id properties = some update) : update.id = id := by
  unfold encodePatchUpdate at h
  dsimp only at h
  split_ifs at h
  rw [← Option.some.inj h, foldl_encodeChange_id]

end Update

/-! ## A patch -/

section Patch

variable {dom : Dom V} {instanceMap : InstanceMap} {changes : PropertyChanges}
  {inst : Handle} {properties : List String} {id : String}

/-- What an instance with its changes contributes. -/
def contributionOf (E : Type) [Encoder E V] (dom : Dom V) (instanceMap : InstanceMap)
    (e : Σ _ : Handle, List String) : Option (Contribution E) :=
  match instanceMap.fromInstances.lookup e.1 with
  | none => none
  | some instanceId =>
    if "Parent" ∈ e.2 then
      if dom.parent e.1 = none then some (.removed instanceId) else none
    else (encodePatchUpdate dom e.1 instanceId e.2).map .updated

theorem addToPatch_eq (state : PatchSet E × PropertyChanges) (e : Σ _ : Handle, List String) :
    addToPatch dom instanceMap state e =
      ({ state.1 with
          removed := state.1.removed ++
            ((contributionOf E dom instanceMap e).bind (·.removal)).toList
          updated := state.1.updated ++
            ((contributionOf E dom instanceMap e).bind (·.update)).toList },
        if (instanceMap.fromInstances.lookup e.1).isSome then state.2.erase e.1 else state.2) := by
  unfold addToPatch contributionOf
  cases instanceMap.fromInstances.lookup e.1 with
  | none => simp
  | some instanceId =>
    simp only [Option.isSome_some, if_true]
    by_cases hparent : "Parent" ∈ e.2
    · by_cases hnil : dom.parent e.1 = none
      · simp [Contribution.removal, Contribution.update, hparent, hnil]
      · simp [hparent, hnil]
    · cases (encodePatchUpdate dom e.1 instanceId e.2 : Option (Update E)) with
      | none => simp [hparent]
      | some update => simp [Contribution.removal, Contribution.update, hparent]

/-- The loop puts together what the instances contribute, and is done with those that are
mapped. -/
theorem foldl_addToPatch (l : List (Σ _ : Handle, List String))
    (state : PatchSet E × PropertyChanges) :
    (l.foldl (addToPatch dom instanceMap) state).1.removed = state.1.removed ++
        l.filterMap (fun e => (contributionOf E dom instanceMap e).bind (·.removal)) ∧
    (l.foldl (addToPatch dom instanceMap) state).1.updated = state.1.updated ++
        l.filterMap (fun e => (contributionOf E dom instanceMap e).bind (·.update)) ∧
    ∀ inst, (l.foldl (addToPatch dom instanceMap) state).2.lookup inst =
      if inst ∈ l.map Sigma.fst ∧ (instanceMap.fromInstances.lookup inst).isSome then none
      else state.2.lookup inst := by
  induction l generalizing state with
  | nil => exact ⟨(List.append_nil _).symm, (List.append_nil _).symm, fun inst => by simp⟩
  | cons e l ih =>
    rw [List.foldl_cons]
    obtain ⟨hremoved, hupdated, hlookup⟩ := ih (addToPatch dom instanceMap state e)
    rw [addToPatch_eq] at hremoved hupdated hlookup ⊢
    refine ⟨?_, ?_, fun inst => ?_⟩
    · rw [hremoved, List.append_assoc, List.filterMap_cons]
      cases (contributionOf E dom instanceMap e).bind (·.removal) <;> rfl
    · rw [hupdated, List.append_assoc, List.filterMap_cons]
      cases (contributionOf E dom instanceMap e).bind (·.update) <;> rfl
    · rw [hlookup, List.map_cons]
      by_cases hfirst : inst = e.1
      · subst hfirst
        cases (instanceMap.fromInstances.lookup e.1).isSome with
        | true => simp
        | false => simp
      · have hrest : (if (instanceMap.fromInstances.lookup e.1).isSome then state.2.erase e.1
            else state.2).lookup inst = state.2.lookup inst := by
          split_ifs
          · rw [lookup_erase_eq, if_neg hfirst]
          · rfl
        rw [hrest]
        simp only [List.mem_cons, hfirst, false_or]

theorem mem_keys_iff :
    inst ∈ changes.entries.map Sigma.fst ↔ ∃ l, changes.lookup inst = some l := by
  rw [← Option.isSome_iff_exists, AList.lookup_isSome]
  exact Iff.rfl

/-- What is left are the changes of instances that are not mapped. -/
theorem lookup_createPatchSet (h : changes.lookup inst = some properties) :
    (createPatchSet (E := E) dom instanceMap changes).2.lookup inst =
      if (instanceMap.fromInstances.lookup inst).isSome then none else some properties := by
  unfold createPatchSet
  rw [(foldl_addToPatch changes.entries _).2.2 inst]
  simp only [mem_keys_iff.mpr ⟨properties, h⟩, true_and, h]

theorem createPatchSet_removed : (createPatchSet (E := E) dom instanceMap changes).1.removed =
    changes.entries.filterMap fun e =>
      (contributionOf E dom instanceMap e).bind (·.removal) :=
  (foldl_addToPatch changes.entries _).1

theorem createPatchSet_updated : (createPatchSet (E := E) dom instanceMap changes).1.updated =
    changes.entries.filterMap fun e =>
      (contributionOf E dom instanceMap e).bind (·.update) :=
  (foldl_addToPatch changes.entries _).2.1

theorem contributionOf_id {e : Σ _ : Handle, List String} {contribution : Contribution E}
    (h : contributionOf E dom instanceMap e = some contribution) :
    instanceMap.fromInstances.lookup e.1 = some contribution.id := by
  unfold contributionOf at h
  cases hid : instanceMap.fromInstances.lookup e.1 with
  | none =>
    rw [hid] at h
    cases h
  | some instanceId =>
    rw [hid] at h
    dsimp only at h
    split_ifs at h
    · rw [← Option.some.inj h]
      rfl
    · obtain ⟨update, hupdate, rfl⟩ := Option.map_eq_some_iff.mp h
      exact congrArg some (encodePatchUpdate_id hupdate).symm

/-- An instance whose parent has changed contributes its removal, and that only if it is gone. -/
theorem contributionOf_parent {e : Σ _ : Handle, List String} {contribution : Contribution E}
    (hparent : "Parent" ∈ e.2) (h : contributionOf E dom instanceMap e = some contribution) :
    dom.parent e.1 = none := by
  unfold contributionOf at h
  cases hid : instanceMap.fromInstances.lookup e.1 with
  | none =>
    rw [hid] at h
    cases h
  | some instanceId =>
    rw [hid] at h
    dsimp only at h
    rw [if_pos hparent] at h
    split_ifs at h with hnil
    exact hnil

/-- What the instances contribute, by the instances. -/
def contributions (E : Type) [Encoder E V] (dom : Dom V) (instanceMap : InstanceMap)
    (changes : PropertyChanges) : Map Handle (Contribution E) where
  entries := changes.entries.filterMap fun e =>
    (contributionOf E dom instanceMap e).map fun contribution => ⟨e.1, contribution⟩
  nodupKeys := by
    have hsub : ∀ l : List (Σ _ : Handle, List String),
        ((l.filterMap fun e => (contributionOf E dom instanceMap e).map fun contribution =>
          (⟨e.1, contribution⟩ : Σ _ : Handle, Contribution E)).keys).Sublist l.keys := by
      intro l
      induction l with
      | nil => exact .slnil
      | cons e l ih =>
        rw [List.filterMap_cons]
        cases contributionOf E dom instanceMap e with
        | none => exact ih.cons e.1
        | some contribution => exact ih.cons_cons e.1
    exact List.Nodup.sublist (hsub changes.entries) changes.nodupKeys

theorem lookup_contributions {contribution : Contribution E} :
    (contributions E dom instanceMap changes).lookup inst = some contribution ↔
      ∃ properties, changes.lookup inst = some properties ∧
        contributionOf E dom instanceMap ⟨inst, properties⟩ = some contribution := by
  rw [← Option.mem_def, AList.mem_lookup_iff]
  unfold contributions
  rw [List.mem_filterMap]
  constructor
  · rintro ⟨⟨inst', properties⟩, hmem, h⟩
    obtain ⟨contribution', hcontribution, heq⟩ := Option.map_eq_some_iff.mp h
    cases heq
    exact ⟨properties, AList.mem_lookup_iff.mpr hmem, hcontribution⟩
  · rintro ⟨properties, hlookup, h⟩
    exact ⟨⟨inst, properties⟩, AList.mem_lookup_iff.mp hlookup, by rw [h]; rfl⟩

/-- An entry of the patch is what one instance contributes. -/
theorem exists_entry_of_part {α : Type} {part : Contribution E → Option α} {a : α}
    (h : a ∈ changes.entries.filterMap fun e => (contributionOf E dom instanceMap e).bind part) :
    ∃ inst properties contribution, changes.lookup inst = some properties ∧
      contributionOf E dom instanceMap ⟨inst, properties⟩ = some contribution ∧
      part contribution = some a := by
  obtain ⟨⟨inst, properties⟩, hmem, h⟩ := List.mem_filterMap.mp h
  obtain ⟨contribution, hcontribution, hpart⟩ := Option.bind_eq_some_iff.mp h
  exact ⟨inst, properties, contribution, AList.mem_lookup_iff.mpr hmem, hcontribution, hpart⟩

theorem filterMap_contributions {α : Type} (part : Contribution E → Option α) :
    (contributions E dom instanceMap changes).entries.filterMap (fun e => part e.2) =
      changes.entries.filterMap fun e =>
        (contributionOf E dom instanceMap e).bind part := by
  unfold contributions
  rw [List.filterMap_filterMap]
  refine List.filterMap_congr fun e _ => ?_
  cases contributionOf E dom instanceMap e <;> rfl

/-- An instance without a change of its parent tells of all that can be encoded. -/
theorem exists_contribution (dom : Dom V) (hlookup : changes.lookup inst = some properties)
    (hid : instanceMap.fromInstances.lookup inst = some id) (hparent : "Parent" ∉ properties)
    {propertyName : String} (hmem : propertyName ∈ properties) :
    CannotEncode E dom inst propertyName ∨
      ∃ update ∈ (createPatchSet (E := E) dom instanceMap changes).1.updated,
        update.id = id ∧ update.Tells dom inst propertyName := by
  refine (encodePatchUpdate_tells id hmem).imp_right ?_
  rintro ⟨update, hupdate, hupdateId, htells⟩
  refine ⟨update, ?_, hupdateId, htells⟩
  rw [createPatchSet_updated, List.mem_filterMap]
  refine ⟨⟨inst, properties⟩, AList.mem_lookup_iff.mp hlookup, ?_⟩
  unfold contributionOf
  dsimp only
  rw [hid]
  dsimp only
  rw [if_neg hparent, hupdate]
  rfl

end Patch

end

/-! ## A part that is renamed -/

section Part

/-- An engine in which all properties but the parent are text that can be sent. -/
@[reducible] def sendingEngine : Engine String where
  creatable _ := true
  isValueBase _ := false
  findCanonicalPropertyDescriptor _ propertyName :=
    if propertyName = "Parent" then none else some ⟨propertyName, .readWrite⟩
  write _ _ value := some value
  writesInstance _ _ := false
  read _ _ held := some (held.getD (.other ""))
  nil := ""
  isNil _ := false
  trueEquals a b := a == b

@[reducible] def textEncoder : Encoder String String where
  encode
    | .other text, _ => some (.other text)
    | .inst _, _ => none

/-- A part in the workspace. -/
def partDom : Dom String where
  next := 2
  instances inst :=
    if inst = 1 then { Instance.new String "Part" with parent := some 0 }
    else { Instance.new String "Workspace" with children := [1] }

def partMap : InstanceMap :=
  letI := sendingEngine
  InstanceMap.new.insert partDom "part" 1

theorem partMap_inverse : partMap.Inverse :=
  letI := sendingEngine
  InstanceMap.new_inverse.insert _ _ _

end Part

end Roxo.Plugin
