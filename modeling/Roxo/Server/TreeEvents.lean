import Mathlib.Logic.Function.Basic
import Roxo.Library.Transition
import Roxo.Server.Interface
import Roxo.Snapshot.MapDom

/-!
# Writes from clients

`/api/write` sends the updates of a client to the change processor, which writes a changed
`Source` to the file that the instance comes from and then applies the updates to the tree. The
updates may name any ids, also several times, and an error of the filesystem is only logged.

`TwoWaySync` is the state that these writes work on. No write panics, and if no write to a file
fails the files keep the sources of their instances (`agrees_of_run`).
-/

namespace Roxo

open AssocMap WeakDom RojoTree Transition

/-! ## The change processor -/

/-- The contents of the files. -/
abbrev Files := PathBuf → Option String

/-- `fs::remove_file`, with the paths for which it fails. -/
def fsRemoveFile (denied : PathBuf → Bool) (files : Files) (path : PathBuf) : Files :=
  if denied path then files else Function.update files path none

/-- `fs::write`, with the paths for which it fails. -/
def fsWrite (denied : PathBuf → Bool) (files : Files) (path : PathBuf) (value : String) : Files :=
  if denied path then files else Function.update files path (some value)

/-- Writes one changed property of an instance to its source. -/
def writeProperty (denied : PathBuf → Bool) (instigatingSource : Option InstigatingSource)
    (files : Files) (key : String) (changedValue : Option Variant) : Files :=
  if key = "Source" then
    match instigatingSource with
    | some (.path path) =>
      match changedValue with
      | some (.string value) => fsWrite denied files path value
      | _ => files
    | _ => files
  else files

section

variable {D : Type} [WeakDom D]

/-- Removes the file that a removed instance comes from. -/
def removeInstigating (denied : PathBuf → Bool) (tree : RojoTree D) (files : Files) (id : Ref) :
    MayPanic Files := do
  match ← tree.getInstance id with
  | some inst =>
    match inst.metadata.instigatingSource with
    | some (.path path) => some (fsRemoveFile denied files path)
    | _ => some files
  | none => some files

/-- Writes the changed properties of an updated instance to its source. -/
def writeInstigating (denied : PathBuf → Bool) (tree : RojoTree D) (files : Files)
    (update : PatchUpdate) : MayPanic Files := do
  match ← tree.getInstance update.id with
  | some inst =>
    some (update.changedProperties.entries.foldl (fun files entry =>
      writeProperty denied inst.metadata.instigatingSource files entry.1 entry.2) files)
  | none => some files

def handleTreeEvent (denied : PathBuf → Bool) (files : Files) (tree : RojoTree D)
    (patchSet : PatchSet) : MayPanic (Files × RojoTree D × AppliedPatchSet) := do
  let files ← patchSet.removedInstances.foldlM (removeInstigating denied tree) files
  let files ← patchSet.updatedInstances.foldlM (writeInstigating denied tree) files
  let (tree, applied) ← applyPatchSet tree patchSet
  some (files, tree, applied)

end

/-- The patch that `/api/write` sends. -/
def writePatch (updated : List Interface.InstanceUpdate) : PatchSet where
  removedInstances := []
  addedInstances := []
  updatedInstances := updated.map fun update =>
    { id := update.id
      changedName := update.changedName
      changedClassName := update.changedClassName
      changedProperties := update.changedProperties
      changedMetadata := none }

structure TwoWaySync (D : Type) where
  files : Files
  tree : RojoTree D
  messages : List AppliedPatchSet

/-- A request, with the paths for which the filesystem fails while it is handled. -/
structure WriteEvent where
  updated : List Interface.InstanceUpdate
  denied : PathBuf → Bool

namespace TwoWaySync

variable {D : Type} [WeakDom D]

/-- The change processor handles a request. -/
def write (s : TwoWaySync D) (e : WriteEvent) : MayPanic (TwoWaySync D) := do
  let (files, tree, applied) ← handleTreeEvent e.denied s.files s.tree (writePatch e.updated)
  some { files, tree, messages := if applied.isEmpty then s.messages else s.messages ++ [applied] }

def Act (s : TwoWaySync D) (e : WriteEvent) (t : TwoWaySync D) : Prop := s.write e = some t

end TwoWaySync

/-! ## What a write does to the tree -/

section

variable {D : Type} [WeakDom D] [LawfulWeakDom D] {tree tree' : RojoTree D} {x : Ref} {i : Instance}
  {context context' : PatchApplyContext} {updates : List PatchUpdate}

/-- The updates of one instance, in their order. -/
def updatedBy (updates : List PatchUpdate) (x : Ref) (i : Instance) : Instance :=
  updates.foldl (fun i u => if u.id = x then updatedInstance ∅ u i else i) i

/-- The file that an instance comes from. -/
def ComesFrom (tree : RojoTree D) (x : Ref) (path : PathBuf) : Prop :=
  ∃ m, tree.metadataMap.lookup x = some m ∧ m.instigatingSource = some (.path path)

/-- Updates have been made, some of them perhaps of instances that are not there. -/
structure UpdatesMade (context : PatchApplyContext) (tree : RojoTree D) (updates : List PatchUpdate)
    (context' : PatchApplyContext) (tree' : RojoTree D) : Prop where
  inv : RojoTree.Inv tree'
  getByRef : ∀ x, getByRef tree'.inner x = (getByRef tree.inner x).map (updatedBy updates x)
  comesFrom : ∀ x path, ComesFrom tree' x path ↔ ComesFrom tree x path
  ids : context'.snapshotIdToInstanceId = context.snapshotIdToInstanceId
  refs : context'.hasRefsToRewrite = context.hasRefsToRewrite
  pointers : ∀ x, context'.attributeRefsToRewrite.get x ≠ [] →
    context.attributeRefsToRewrite.get x ≠ [] ∨ Present tree x
  applied : context'.appliedPatchSet = { context.appliedPatchSet with
    updated := context.appliedPatchSet.updated ++
      (updates.filter fun u => (WeakDom.getByRef tree.inner u.id).isSome).map recordUpdate }

omit [LawfulWeakDom D] in
theorem instigatingSource_updatedMetadata {ids : Map Ref Ref} {u : PatchUpdate}
    (hu : u.changedMetadata = none) (m : InstanceMetadata) :
    (updatedMetadata ids u i m).instigatingSource = m.instigatingSource := by
  unfold updatedMetadata deferredMetadata
  rw [hu]
  split <;> rfl

/-- **The updates of a write** never panic. -/
theorem applyUpdates_made (h : RojoTree.Inv tree)
    (hmeta : ∀ u ∈ updates, u.changedMetadata = none)
    (hids : context.snapshotIdToInstanceId = ∅) :
    ∃ context' tree', updates.foldlM
        (fun state updatePatch => applyUpdateChild state.1 state.2 updatePatch) (context, tree) =
        some (context', tree') ∧ UpdatesMade context tree updates context' tree' := by
  induction updates generalizing tree context with
  | nil =>
    refine ⟨context, tree, rfl, h, fun x => Option.map_id'.symm ▸ rfl, fun _ _ => Iff.rfl, rfl, rfl,
      fun _ => Or.inl, ?_⟩
    rw [List.filter_nil, List.map_nil, List.append_nil]
  | cons u updates ih =>
    obtain ⟨hu, hmeta⟩ := List.forall_mem_cons.mp hmeta
    cases hi : getByRef tree.inner u.id with
    | none =>
      have hskip : applyUpdateChild context tree u = some (context, tree) := by
        unfold applyUpdateChild applyMetadata getInstanceMut
        simp only [hu, hi, Option.bind_eq_bind, Option.bind_some]
      obtain ⟨context', tree', heq, hw⟩ := ih h hmeta hids
      refine ⟨context', tree', ?_, hw.inv, fun x => ?_, hw.comesFrom, hw.ids, hw.refs,
        hw.pointers, ?_⟩
      · rw [List.foldlM_cons, hskip]
        exact heq
      · rw [hw.getByRef]
        by_cases hx : u.id = x
        · rw [← hx, hi]
          rfl
        · refine congrArg (Option.map · _) (funext fun i => ?_)
          unfold updatedBy
          rw [List.foldl_cons, if_neg hx]
      · rw [hw.applied, List.filter_cons, hi]
        rfl
    | some i =>
      obtain ⟨context₁, tree₁, heq₁, h₁⟩ := applyUpdateChild_updated h hi context
      obtain ⟨m, hm⟩ := h.metadata_of_present hi
      obtain ⟨hi₁, hm₁⟩ := h₁.changed u List.mem_cons_self i m hi hm
      have hother : ∀ x, x ≠ u.id → getByRef tree₁.inner x = getByRef tree.inner x ∧
          tree₁.metadataMap.lookup x = tree.metadataMap.lookup x := fun x hx =>
        h₁.other x fun hmem => hx (List.mem_singleton.mp hmem)
      have hsome : ∀ x, (getByRef tree₁.inner x).isSome = (getByRef tree.inner x).isSome := by
        intro x
        by_cases hx : x = u.id
        · rw [hx, hi₁, hi]
          rfl
        · rw [(hother x hx).1]
      obtain ⟨context', tree', heq, hw⟩ := ih h₁.inv hmeta (h₁.ids.trans hids)
      refine ⟨context', tree', ?_, hw.inv, fun x => ?_, fun x path => ?_, hw.ids.trans h₁.ids,
        hw.refs.trans h₁.refs, fun x hx => ?_, ?_⟩
      · rw [List.foldlM_cons, heq₁]
        exact heq
      · rw [hw.getByRef]
        by_cases hx : x = u.id
        · rw [hx, hi₁, hi, hids, Option.map_some, Option.map_some]
          unfold updatedBy
          rw [List.foldl_cons, if_pos rfl]
        · rw [(hother x hx).1]
          refine congrArg (Option.map · _) (funext fun i => ?_)
          unfold updatedBy
          rw [List.foldl_cons, if_neg (Ne.symm hx)]
      · rw [hw.comesFrom]
        unfold ComesFrom
        by_cases hx : x = u.id
        · rw [hx, hm₁, hm]
          simp only [Option.some.injEq, exists_eq_left', instigatingSource_updatedMetadata hu]
        · rw [(hother x hx).2]
      · rcases hw.pointers x hx with hx | hx
        · obtain ⟨pointer, hmem⟩ := List.exists_mem_of_ne_nil _ hx
          rcases (h₁.pointers x pointer).mp hmem with hmem | ⟨v, hv, rfl, -⟩
          · exact Or.inl (List.ne_nil_of_mem hmem)
          · rw [List.mem_singleton.mp hv]
            exact Or.inr (Option.isSome_of_eq_some hi)
        · exact Or.inr ((hsome x).symm.trans hx)
      · rw [hw.applied, h₁.applied, List.filter_cons, hi]
        simp only [hsome, Option.isSome_some, if_true, List.map_cons, List.map_nil,
          List.append_assoc, List.singleton_append]

/-- What a write leaves of the tree. Only updates of instances that are there are recorded. -/
theorem applyPatchSet_writePatch (h : RojoTree.Inv tree)
    (updated : List Interface.InstanceUpdate) :
    ∃ tree', applyPatchSet tree (writePatch updated) = some (tree',
        { removed := []
          added := []
          updated := ((writePatch updated).updatedInstances.filter fun u =>
            (getByRef tree.inner u.id).isSome).map recordUpdate }) ∧
      RojoTree.Inv tree' ∧ (∀ x path, ComesFrom tree' x path ↔ ComesFrom tree x path) ∧
      ∀ x i', getByRef tree'.inner x = some i' → ∃ i, getByRef tree.inner x = some i ∧
        ∀ k v, i'.properties.lookup k = some (.string v) →
          (updatedBy (writePatch updated).updatedInstances x i).properties.lookup k =
            some (.string v) := by
  have hmeta : ∀ u ∈ (writePatch updated).updatedInstances, u.changedMetadata = none := by
    intro u hu
    obtain ⟨v, -, rfl⟩ := List.mem_map.mp hu
    rfl
  obtain ⟨context, tree₁, heq, hmade⟩ :=
    applyUpdates_made h hmeta (rfl : PatchApplyContext.default.snapshotIdToInstanceId = ∅)
  have hrefs : context.hasRefsToRewrite = [] := hmade.refs
  obtain ⟨tree', heq', hfinal⟩ := finalizePatchApplication_eq hmade.inv
    (by rw [hrefs]; exact List.nodup_nil)
    (fun x hx => by
      rw [hrefs] at hx
      cases hx)
    (fun x hx => by
      rcases hmade.pointers x hx with hx | hx
      · exact absurd rfl hx
      · rw [hmade.getByRef, Option.isSome_map]
        exact hx)
  refine ⟨tree', ?_, hfinal.inv, fun x path => ?_, fun x i' hi' => ?_⟩
  · unfold applyPatchSet
    have hnone : (writePatch updated).removedInstances = [] := rfl
    have hnone' : (writePatch updated).addedInstances = [] := rfl
    rw [hnone, hnone']
    simp only [List.foldlM_nil, Option.pure_def, Option.bind_eq_bind, Option.bind_some]
    rw [heq, Option.bind_some, heq', hmade.applied]
    rfl
  · unfold ComesFrom
    rw [hfinal.metadata]
    exact hmade.comesFrom x path
  · rw [hfinal.getByRef, hmade.getByRef, Option.map_map] at hi'
    obtain ⟨i, hi, rfl⟩ := Option.map_eq_some_iff.mp hi'
    refine ⟨i, hi, fun k v hv => ?_⟩
    -- a deferred write sets a property to a reference
    dsimp only [Function.comp] at hv
    unfold finalProperties at hv
    rw [hrefs, if_neg List.not_mem_nil, lookup_extend] at hv
    cases hlookup : (extend (∅ : UstrMap Variant)
        (realRewrites tree₁ (context.attributeRefsToRewrite.get x))).lookup k with
    | none =>
      rw [hlookup, Option.none_or] at hv
      exact hv
    | some w =>
      rw [hlookup, Option.some_or] at hv
      obtain rfl := Option.some.inj hv
      rcases mem_of_lookup_extend hlookup with hmem | hempty
      · unfold realRewrites at hmem
        obtain ⟨⟨l, target⟩, -, he⟩ := List.mem_filterMap.mp hmem
        obtain ⟨r, -, he⟩ := Option.map_eq_some_iff.mp he
        cases congrArg Prod.snd he
      · rw [AList.lookup_empty] at hempty
        cases hempty

end

/-! ## What a write does to the files -/

section

variable {D : Type} [WeakDom D] {tree : RojoTree D} {x : Ref} {path : PathBuf}
  {denied : PathBuf → Bool} {files : Files} {updates : List PatchUpdate}

/-- Only a changed `Source` is written. -/
theorem foldl_writeProperty (source : Option InstigatingSource)
    (changed : UstrMap (Option Variant)) (files : Files) :
    changed.entries.foldl (fun files entry =>
        writeProperty denied source files entry.1 entry.2) files =
      (changed.lookup "Source").elim files (writeProperty denied source files "Source") := by
  have hloop : ∀ l : List (Σ _ : String, Option Variant), l.NodupKeys → ∀ files : Files,
      l.foldl (fun files entry => writeProperty denied source files entry.1 entry.2) files =
        (l.dlookup "Source").elim files (writeProperty denied source files "Source") := by
    intro l hl
    induction l with
    | nil => exact fun _ => rfl
    | cons e l ih =>
      intro files
      obtain ⟨he, hrest⟩ := List.nodupKeys_cons.mp hl
      obtain ⟨key, value⟩ := e
      rw [List.foldl_cons, ih hrest]
      by_cases hkey : "Source" = key
      · subst hkey
        rw [List.dlookup_eq_none.mpr he, List.dlookup_cons_eq, Option.elim_none, Option.elim_some]
      · rw [List.dlookup_cons_ne _ _ hkey]
        have hskip : writeProperty denied source files key value = files := if_neg (Ne.symm hkey)
        rw [hskip]
  exact hloop _ changed.nodupKeys files

/-- The `Source` of an instance after some updates. -/
theorem lookup_updatedBy (updates : List PatchUpdate) (x : Ref) (i : Instance) (k : String) :
    (updatedBy updates x i).properties.lookup k =
      updates.foldl (fun old u => if u.id = x then
        (u.changedProperties.lookup k).elim old fun entry => changedValue ∅ entry old
        else old) (i.properties.lookup k) := by
  induction updates generalizing i with
  | nil => rfl
  | cons u updates ih =>
    unfold updatedBy at ih ⊢
    rw [List.foldl_cons, List.foldl_cons, ih]
    split_ifs
    · rw [← lookup_updatedProperties]
      rfl
    · rfl

/-- No two instances come from the same file. -/
def Separate (tree : RojoTree D) : Prop :=
  ∀ x y path, ComesFrom tree x path → ComesFrom tree y path → x = y

/-- One update writes its source, if it is a string, and no other file. -/
theorem writeInstigating_spec (h : RojoTree.Inv tree) (denied : PathBuf → Bool) (u : PatchUpdate)
    (files : Files) :
    ∃ files', writeInstigating denied tree files u = some files' ∧ ∀ path,
      (∀ v, u.changedProperties.lookup "Source" = some (some (.string v)) →
        ComesFrom tree u.id path → denied path = false → files' path = some v) ∧
      ((∀ v, u.changedProperties.lookup "Source" = some (some (.string v)) →
        ¬ ComesFrom tree u.id path) → files' path = files path) := by
  unfold writeInstigating
  cases hi : getByRef tree.inner u.id with
  | none =>
    have hnone : tree.metadataMap.lookup u.id = none := by
      rw [AList.lookup_eq_none, h.keys, hi]
      exact Bool.false_ne_true
    rw [getInstance_none hi]
    refine ⟨files, rfl, fun path => ⟨?_, fun _ => rfl⟩⟩
    rintro v - ⟨m, hm, -⟩
    rw [hnone] at hm
    cases hm
  | some i =>
    obtain ⟨m, hm⟩ := h.metadata_of_present hi
    rw [getInstance_eq hi hm]
    simp only [Option.bind_eq_bind, Option.bind_some, foldl_writeProperty]
    refine ⟨_, rfl, fun path => ?_⟩
    have hcomes : ∀ {q}, ComesFrom tree u.id q ↔ m.instigatingSource = some (.path q) := by
      intro q
      unfold ComesFrom
      rw [hm]
      simp only [Option.some.injEq, exists_eq_left']
    constructor
    · intro v hv hpath hdenied
      rw [hv, Option.elim_some, hcomes.mp hpath]
      unfold writeProperty fsWrite
      simp only [if_true, hdenied, Bool.false_eq_true, if_false, Function.update_self]
    · intro hnot
      cases hv : u.changedProperties.lookup "Source" with
      | none => rfl
      | some entry =>
        rw [Option.elim_some]
        unfold writeProperty
        rw [if_pos rfl]
        cases hsource : m.instigatingSource with
        | none => rfl
        | some source =>
          cases source with
          | projectNode => rfl
          | path q =>
            dsimp only
            split
            · rename_i v
              have hne : path ≠ q := by
                rintro rfl
                exact hnot v hv (hcomes.mpr hsource)
              unfold fsWrite
              split_ifs
              · rfl
              · exact Function.update_of_ne hne _ _
            · rfl

/-- The file of an instance holds its source, if that is a string. -/
def Holds (files : Files) (path : PathBuf) (source : Option Variant) : Prop :=
  ∀ v, source = some (.string v) → files path = some v

/-- The condition on a write: no write to a file fails. -/
def WritesThrough (tree : RojoTree D) (denied : PathBuf → Bool) (updates : List PatchUpdate) :
    Prop :=
  ∀ u ∈ updates, ∀ v path, u.changedProperties.lookup "Source" = some (some (.string v)) →
    ComesFrom tree u.id path → denied path = false

/-- The files after the updates hold what the instances have. -/
theorem foldlM_writeInstigating (h : RojoTree.Inv tree) (hseparate : Separate tree)
    (hwritable : WritesThrough tree denied updates) (files : Files) :
    ∃ files', updates.foldlM (writeInstigating denied tree) files = some files' ∧
      ∀ x path (i : Instance), ComesFrom tree x path →
        Holds files path (i.properties.lookup "Source") →
        Holds files' path ((updatedBy updates x i).properties.lookup "Source") := by
  simp only [lookup_updatedBy]
  suffices hloop : ∃ files', updates.foldlM (writeInstigating denied tree) files = some files' ∧
      ∀ x path old, ComesFrom tree x path → Holds files path old →
        Holds files' path (updates.foldl (fun old u => if u.id = x then
          (u.changedProperties.lookup "Source").elim old fun entry => changedValue ∅ entry old
          else old) old) by
    obtain ⟨files', heq, hholds⟩ := hloop
    exact ⟨files', heq, fun x path i => hholds x path _⟩
  induction updates generalizing files with
  | nil => exact ⟨files, rfl, fun _ _ _ _ hold => hold⟩
  | cons u updates ih =>
    obtain ⟨hu, hwritable⟩ := List.forall_mem_cons.mp hwritable
    obtain ⟨files₁, heq₁, hspec⟩ := writeInstigating_spec h denied u files
    obtain ⟨files', heq, hholds⟩ := ih hwritable files₁
    refine ⟨files', by rw [List.foldlM_cons, heq₁]; exact heq, fun x path old hpath hold => ?_⟩
    rw [List.foldl_cons]
    refine hholds x path _ hpath ?_
    obtain ⟨hwrites, hkeeps⟩ := hspec path
    by_cases hx : u.id = x
    · subst hx
      rw [if_pos rfl]
      cases hentry : u.changedProperties.lookup "Source" with
      | none =>
        rw [hentry] at hkeeps
        rw [Option.elim_none]
        unfold Holds
        rw [hkeeps fun v hv => by cases hv]
        exact hold
      | some entry =>
        rw [Option.elim_some]
        intro v hv
        by_cases hstring : entry = some (.string v)
        · exact hwrites v (hstring ▸ hentry) hpath (hu v path (hstring ▸ hentry) hpath)
        · -- a null reference changes nothing, and nothing else leaves a string
          unfold changedValue at hv
          split at hv
          · split_ifs at hv
            · rw [hkeeps fun w hw => by
                rw [hentry] at hw
                cases hw]
              exact hold v hv
            · cases hv
          · exact absurd hv hstring
          · cases hv
    · rw [if_neg hx]
      unfold Holds
      rw [hkeeps fun v _ hcomes => hx (hseparate _ _ path hcomes hpath)]
      exact hold

end

/-! ## Runs -/

namespace TwoWaySync

variable {D : Type} [WeakDom D] {s t : TwoWaySync D} {e : WriteEvent}

/-- The file that an instance comes from holds its source. -/
def Agrees (s : TwoWaySync D) : Prop :=
  ∀ x i path, getByRef s.tree.inner x = some i → ComesFrom s.tree x path →
    Holds s.files path (i.properties.lookup "Source")

/-- The condition on a request. -/
def Allowed (s : TwoWaySync D) (e : WriteEvent) : Prop :=
  WritesThrough s.tree e.denied (writePatch e.updated).updatedInstances

structure Inv (s : TwoWaySync D) : Prop where
  inv : RojoTree.Inv s.tree
  separate : Separate s.tree
  agrees : s.Agrees

variable [LawfulWeakDom D]

/-- The files are written, whichever writes fail. -/
theorem exists_write (h : RojoTree.Inv s.tree) (e : WriteEvent) : ∃ t, Act s e t := by
  have hloop : ∀ (l : List PatchUpdate) (files : Files),
      ∃ files', l.foldlM (writeInstigating e.denied s.tree) files = some files' := by
    intro l
    induction l with
    | nil => exact fun files => ⟨files, rfl⟩
    | cons u l ih =>
      intro files
      obtain ⟨files₁, heq₁, -⟩ := writeInstigating_spec h e.denied u files
      obtain ⟨files', heq⟩ := ih files₁
      exact ⟨files', by rw [List.foldlM_cons, heq₁]; exact heq⟩
  obtain ⟨files', hfiles⟩ := hloop (writePatch e.updated).updatedInstances s.files
  obtain ⟨tree', htree, -⟩ := applyPatchSet_writePatch h e.updated
  have hnone : (writePatch e.updated).removedInstances = [] := rfl
  refine Option.isSome_iff_exists.mp ?_
  unfold write handleTreeEvent
  rw [hnone]
  simp only [List.foldlM_nil, Option.pure_def, Option.bind_eq_bind, Option.bind_some, hfiles, htree,
    Option.isSome_some]

omit [LawfulWeakDom D] in
/-- What a request does. -/
theorem act_spec (hact : Act s e t) :
    (writePatch e.updated).updatedInstances.foldlM (writeInstigating e.denied s.tree) s.files =
        some t.files ∧
      ∃ applied, applyPatchSet s.tree (writePatch e.updated) = some (t.tree, applied) ∧
        t.messages = if applied.isEmpty then s.messages else s.messages ++ [applied] := by
  unfold Act write handleTreeEvent at hact
  have hnone : (writePatch e.updated).removedInstances = [] := rfl
  rw [hnone] at hact
  simp only [List.foldlM_nil, Option.pure_def, Option.bind_eq_bind, Option.bind_some] at hact
  obtain ⟨⟨files, tree, applied⟩, hevent, hact⟩ := Option.bind_eq_some_iff.mp hact
  obtain ⟨files', hfiles, hevent⟩ := Option.bind_eq_some_iff.mp hevent
  obtain ⟨⟨tree', applied'⟩, htree, hevent⟩ := Option.bind_eq_some_iff.mp hevent
  obtain ⟨rfl, heq⟩ := Prod.mk.inj (Option.some.inj hevent)
  obtain ⟨rfl, rfl⟩ := Prod.mk.inj heq
  obtain rfl := Option.some.inj hact
  exact ⟨hfiles, applied', htree, rfl⟩

theorem Inv.act (h : s.Inv) (hst : When Act Allowed s e t) : t.Inv := by
  obtain ⟨hact, hallowed⟩ := hst
  obtain ⟨hfiles, applied, htree, -⟩ := act_spec hact
  obtain ⟨tree', htree', hinv, hcomes, hsource⟩ := applyPatchSet_writePatch h.inv e.updated
  obtain ⟨rfl, -⟩ := Prod.mk.inj (Option.some.inj (htree'.symm.trans htree))
  obtain ⟨files', hfiles', hholds⟩ := foldlM_writeInstigating h.inv h.separate hallowed s.files
  obtain rfl := Option.some.inj (hfiles'.symm.trans hfiles)
  refine ⟨hinv, fun x y path hx hy => h.separate x y path ((hcomes x path).mp hx)
    ((hcomes y path).mp hy), fun x i' path hi' hpath v hv => ?_⟩
  obtain ⟨i, hi, hstring⟩ := hsource x i' hi'
  have hpath' := (hcomes x path).mp hpath
  exact hholds x path i hpath' (h.agrees x i path hi hpath') v (hstring "Source" v hv)

/-- A request keeps the tree well formed, whichever writes fail. -/
theorem inv_act (h : RojoTree.Inv s.tree) (hact : Act s e t) : RojoTree.Inv t.tree := by
  obtain ⟨-, applied, htree, -⟩ := act_spec hact
  obtain ⟨tree', htree', hinv, -⟩ := applyPatchSet_writePatch h e.updated
  obtain ⟨rfl, -⟩ := Prod.mk.inj (Option.some.inj (htree'.symm.trans htree))
  exact hinv

/-- **Two-way sync.** Every request is handled without a panic, first and after any other requests,
whichever writes to files failed. From a session in which the files hold the sources of the
instances, no two of them from one file, as long as no write to a file fails the files hold the
sources after each request. -/
theorem agrees_of_run (h : RojoTree.Inv s.tree) :
    (∀ e, ∃ t, Act s e t) ∧
    (∀ run : List (WriteEvent × TwoWaySync D), Run Act s run →
      ∀ x ∈ run, ∀ e, ∃ t, Act x.2 e t) ∧
    (Separate s.tree → s.Agrees → ∀ run : List (WriteEvent × TwoWaySync D),
      Run (When Act Allowed) s run → ∀ x ∈ run, x.2.Agrees) := by
  refine ⟨exists_write h, fun run hrun x hx => ?_, fun hseparate hagrees run hrun x hx => ?_⟩
  · exact exists_write (hrun.invariant (P := fun s => RojoTree.Inv s.tree)
      (fun _ _ _ hs hst => inv_act hs hst) h x hx)
  · exact (hrun.invariant (P := Inv) (fun _ _ _ hs hst => hs.act hst)
      ⟨h, hseparate, hagrees⟩ x hx).agrees

/-! ### A session with one script -/

def scriptPath : PathBuf := ⟨true, ["main.lua"]⟩

def scriptRoot : InstanceSnapshot :=
  { InstanceSnapshot.new with
    name := "main"
    className := "ModuleScript"
    properties := AList.singleton "Source" (.string "return 1")
    metadata := { instigatingSource := some (.path scriptPath), relevantPaths := [scriptPath] } }

def scriptTree : RojoTree MapDom := (RojoTree.new scriptRoot).get rfl

def scriptSession : TwoWaySync MapDom where
  files path := if path = scriptPath then some "return 1" else none
  tree := scriptTree
  messages := []

/-- An edit of the script, after an update of an instance that is not there. -/
def scriptEdit : WriteEvent where
  updated :=
    [⟨Ref.some 7, some "other", none, ∅, none⟩,
      ⟨Ref.some 0, none, none, AList.singleton "Source" (some (.string "return 2")), none⟩]
  denied _ := false

theorem comesFrom_scriptSession {x : Ref} {path : PathBuf}
    (h : ComesFrom scriptSession.tree x path) : x = Ref.some 0 ∧ path = scriptPath := by
  obtain ⟨m, hm, hsource⟩ := h
  have hmem : Sigma.mk x m ∈ scriptSession.tree.metadataMap.entries := AList.mem_lookup_iff.mp hm
  have hentries : scriptSession.tree.metadataMap.entries =
      [⟨Ref.some 0, scriptRoot.metadata⟩] := rfl
  rw [hentries] at hmem
  cases List.mem_singleton.mp hmem
  cases hsource
  exact ⟨rfl, rfl⟩

/-- The same edit when the file cannot be written. -/
def deniedEdit : WriteEvent := { scriptEdit with denied := fun _ => true }

theorem run_scriptEdit : ∃ t, Run (When Act Allowed) scriptSession [(scriptEdit, t)] ∧
    t.files scriptPath = some "return 2" ∧ t.messages.length = 1 := by
  have hwrite : (scriptSession.write scriptEdit).isSome := by rfl
  exact ⟨_, .cons ⟨(Option.some_get hwrite).symm, fun _ _ _ _ _ _ => rfl⟩ (.nil _), rfl, rfl⟩

theorem run_deniedEdit : ∃ t, Run Act scriptSession [(deniedEdit, t)] ∧
    t.files scriptPath = some "return 1" := by
  have hwrite : (scriptSession.write deniedEdit).isSome := by rfl
  exact ⟨_, .cons (Option.some_get hwrite).symm (.nil _), rfl⟩

/-- The update of the instance that is there is written to its file and announced. After a write
that failed the next request is handled, too. -/
theorem agrees_of_scriptEdit :
    (∃ t, Run (When Act Allowed) scriptSession [(scriptEdit, t)] ∧
      t.files scriptPath = some "return 2" ∧ t.messages.length = 1 ∧ t.Agrees) ∧
    ∃ t, Run Act scriptSession [(deniedEdit, t)] ∧ t.files scriptPath = some "return 1" ∧
      ∀ e, ∃ t', Act t e t' := by
  have hinv : RojoTree.Inv scriptTree := RojoTree.Inv.new (Option.some_get _).symm
  have hseparate : Separate scriptSession.tree := fun x y path hx hy =>
    (comesFrom_scriptSession hx).1.trans (comesFrom_scriptSession hy).1.symm
  have hagrees : scriptSession.Agrees := by
    intro x i path hi hpath v hv
    obtain ⟨rfl, rfl⟩ := comesFrom_scriptSession hpath
    have hsome : (getByRef scriptSession.tree.inner (Ref.some 0)).isSome := by rfl
    obtain rfl := Option.some.inj ((Option.some_get hsome).trans hi)
    have hsource : ((getByRef scriptSession.tree.inner (Ref.some 0)).get hsome).properties.lookup
        "Source" = some (.string "return 1") := rfl
    cases hsource.symm.trans hv
    show (if scriptPath = scriptPath then some "return 1" else none) = some "return 1"
    exact if_pos rfl
  obtain ⟨-, hhandled, hkept⟩ := agrees_of_run hinv (s := scriptSession)
  obtain ⟨t, hrun, hfile, hmessages⟩ := run_scriptEdit
  obtain ⟨u, hdenied, hold⟩ := run_deniedEdit
  exact ⟨⟨t, hrun, hfile, hmessages, hkept hseparate hagrees _ hrun _ List.mem_cons_self⟩,
    u, hdenied, hold, hhandled _ hdenied _ List.mem_cons_self⟩

end TwoWaySync

end Roxo
