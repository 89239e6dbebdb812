import Roxo.Cli.Shown
import Roxo.Snapshot.Outcome

/-!
# Sourcemaps

The sourcemap of a tree has the instances that pass a filter and those above them. In watch mode it
is written again only if a patch affects it. The test looks at the added and updated instances
alone, so an instance above a script can be renamed, and a script can become something else, without
the sourcemap being written again (`skipped_iff`).
-/

namespace Roxo

open AssocMap WeakDom RojoTree Forest

theorem mapM_eq_some_iff {α β : Type} {f : α → Option β} {l : List α} {l' : List β} :
    l.mapM f = some l' ↔ List.Forall₂ (fun a b => f a = some b) l l' := by
  induction l generalizing l' with
  | nil =>
    rw [List.mapM_nil, List.forall₂_nil_left_iff]
    exact ⟨fun h => (Option.some.inj h).symm, fun h => h ▸ rfl⟩
  | cons a l ih =>
    rw [List.mapM_cons, List.forall₂_cons_left_iff]
    constructor
    · intro h
      obtain ⟨b, hb, h⟩ := Option.bind_eq_some_iff.mp h
      obtain ⟨bs, hbs, h⟩ := Option.bind_eq_some_iff.mp h
      exact ⟨b, bs, hb, ih.mp hbs, (Option.some.inj h).symm⟩
    · rintro ⟨b, bs, hb, hbs, rfl⟩
      rw [hb, ih.mpr hbs]
      rfl

structure SourcemapNode where
  name : String
  className : String
  filePaths : List PathBuf
  children : List SourcemapNode

/-- The file system, and how the path of a file is put out. -/
class SourcemapPaths where
  isFile : PathBuf → Bool
  /-- `path::absolute`. -/
  absolute : PathBuf → Option PathBuf
  /-- `pathdiff::diff_paths`. -/
  diffPaths : PathBuf → PathBuf → Option PathBuf

structure SourcemapOptions where
  projectDir : PathBuf
  useAbsolutePaths : Bool

def filterNothing (_ : InstanceWithMeta) : Bool := true

def filterNonScripts (inst : InstanceWithMeta) : Bool :=
  inst.inst.className ∈ ["Script", "LocalScript", "ModuleScript"]

section

variable {D : Type} [WeakDom D] [SourcemapPaths]

/-- The paths of a node. A path that cannot be put out makes it panic. -/
def outputFilePaths (options : SourcemapOptions) (inst : InstanceWithMeta) :
    MayPanic (List PathBuf) :=
  (inst.metadata.relevantPaths.filter SourcemapPaths.isFile).mapM fun path =>
    if options.useAbsolutePaths then SourcemapPaths.absolute path
    else SourcemapPaths.diffPaths path options.projectDir

/-- An instance with the nodes of its children. -/
def createNode (options : SourcemapOptions) (filter : InstanceWithMeta → Bool)
    (inst : InstanceWithMeta) (children : List SourcemapNode) :
    MayPanic (Option SourcemapNode) :=
  if children.isEmpty && !filter inst then some none
  else do
    let filePaths ← outputFilePaths options inst
    some (some { name := inst.inst.name, className := inst.inst.className, filePaths, children })

def recurseCreateNode (options : SourcemapOptions) (filter : InstanceWithMeta → Bool)
    (tree : RojoTree D) : ℕ → Ref → MayPanic (Option SourcemapNode)
  | 0, _ => none
  | fuel + 1, referent => do
    let inst ← (tree.getInstance referent).join
    let children ← inst.inst.children.mapM (recurseCreateNode options filter tree fuel)
    createNode options filter inst (children.filterMap id)

/-- The root node of the sourcemap. No instance is below itself, so there are at most as many calls
inside each other as instances. -/
def rootNode (options : SourcemapOptions) (filter : InstanceWithMeta → Bool) (tree : RojoTree D) :
    MayPanic (Option SourcemapNode) :=
  recurseCreateNode options filter tree (tree.metadataMap.keys.length + 1) tree.getRootId

/-! ## Nodes -/

section Nodes

variable {options : SourcemapOptions} {filter : InstanceWithMeta → Bool} {tree tree' : RojoTree D}
  {x y : Ref} {r : Option SourcemapNode} {inst : InstanceWithMeta}

/-- What an instance becomes, as far as it takes. -/
def Node (options : SourcemapOptions) (filter : InstanceWithMeta → Bool) (tree : RojoTree D)
    (x : Ref) (r : Option SourcemapNode) : Prop :=
  ∃ n, recurseCreateNode options filter tree n x = some r

theorem recurseCreateNode_mono {n : ℕ} (h : recurseCreateNode options filter tree n x = some r) :
    recurseCreateNode options filter tree (n + 1) x = some r := by
  induction n generalizing x r with
  | zero => cases h
  | succ n ih =>
    rw [recurseCreateNode] at h ⊢
    obtain ⟨inst, hinst, h⟩ := Option.bind_eq_some_iff.mp h
    obtain ⟨children, hchildren, h⟩ := Option.bind_eq_some_iff.mp h
    refine Option.bind_eq_some_iff.mpr ⟨inst, hinst, Option.bind_eq_some_iff.mpr
      ⟨children, mapM_eq_some_iff.mpr ?_, h⟩⟩
    exact (mapM_eq_some_iff.mp hchildren).imp fun _ _ hc => ih hc

theorem recurseCreateNode_le {n m : ℕ} (hle : n ≤ m)
    (h : recurseCreateNode options filter tree n x = some r) :
    recurseCreateNode options filter tree m x = some r := by
  induction hle with
  | refl => exact h
  | step _ ih => exact recurseCreateNode_mono ih

/-- An instance becomes a node made of those of its children. -/
theorem node_iff : Node options filter tree x r ↔ ∃ inst children,
    (tree.getInstance x).join = some inst ∧
    List.Forall₂ (Node options filter tree) inst.inst.children children ∧
    createNode options filter inst (children.filterMap id) = some r := by
  constructor
  · rintro ⟨n, h⟩
    cases n with
    | zero => cases h
    | succ n =>
      rw [recurseCreateNode] at h
      obtain ⟨inst, hinst, h⟩ := Option.bind_eq_some_iff.mp h
      obtain ⟨children, hchildren, h⟩ := Option.bind_eq_some_iff.mp h
      exact ⟨inst, children, hinst,
        (mapM_eq_some_iff.mp hchildren).imp fun _ _ hc => ⟨n, hc⟩, h⟩
  · rintro ⟨inst, children, hinst, hchildren, h⟩
    have hfuel : ∃ n, List.Forall₂ (fun c r => recurseCreateNode options filter tree n c = some r)
        inst.inst.children children := by
      clear h
      generalize inst.inst.children = l at hchildren
      induction hchildren with
      | nil => exact ⟨0, .nil⟩
      | cons hc _ ih =>
        obtain ⟨n, hc⟩ := hc
        obtain ⟨m, hrest⟩ := ih
        exact ⟨max n m, .cons (recurseCreateNode_le (le_max_left n m) hc)
          (hrest.imp fun _ _ h => recurseCreateNode_le (le_max_right n m) h)⟩
    obtain ⟨n, hn⟩ := hfuel
    refine ⟨n + 1, ?_⟩
    rw [recurseCreateNode]
    exact Option.bind_eq_some_iff.mpr ⟨inst, hinst, Option.bind_eq_some_iff.mpr
      ⟨children, mapM_eq_some_iff.mpr hn, h⟩⟩

theorem Node.induct {P : Ref → Option SourcemapNode → Prop}
    (h : ∀ x r inst children, (tree.getInstance x).join = some inst →
      List.Forall₂ (Node options filter tree) inst.inst.children children →
      List.Forall₂ P inst.inst.children children →
      createNode options filter inst (children.filterMap id) = some r → P x r)
    (hn : Node options filter tree x r) : P x r := by
  obtain ⟨n, hn⟩ := hn
  induction n generalizing x r with
  | zero => cases hn
  | succ n ih =>
    rw [recurseCreateNode] at hn
    obtain ⟨inst, hinst, hn⟩ := Option.bind_eq_some_iff.mp hn
    obtain ⟨children, hchildren, hn⟩ := Option.bind_eq_some_iff.mp hn
    have hall := mapM_eq_some_iff.mp hchildren
    exact h x r inst children hinst (hall.imp fun _ _ hc => ⟨n, hc⟩) (hall.imp fun _ _ hc => ih hc) hn

theorem Node.unique {r' : Option SourcemapNode} (h : Node options filter tree x r)
    (h' : Node options filter tree x r') : r = r' := by
  obtain ⟨n, hn⟩ := h
  obtain ⟨m, hm⟩ := h'
  exact Option.some.inj ((recurseCreateNode_le (le_max_left n m) hn).symm.trans
    (recurseCreateNode_le (le_max_right n m) hm))

/-! ### Enough fuel -/

open Classical in
/-- How many instances are below an instance, itself included. -/
noncomputable def weight (tree : RojoTree D) (x : Ref) : ℕ :=
  tree.metadataMap.keys.countP fun y => Desc (kids tree.inner) x y

variable [LawfulWeakDom D]

omit [SourcemapPaths] in
theorem weight_lt (h : Inv tree) (hc : y ∈ kids tree.inner x) :
    weight tree y < weight tree x := by
  classical
  have hf := LawfulWeakDom.forest tree.inner
  have hx : x ∈ tree.metadataMap.keys := by
    refine AList.mem_keys.mp ((h.keys x).mpr ?_)
    unfold kids at hc
    cases hi : getByRef tree.inner x with
    | some i => rfl
    | none =>
      rw [hi] at hc
      cases hc
  unfold weight
  have hsub : ∀ l : List Ref, l.countP (fun z => Desc (kids tree.inner) y z) ≤
      l.countP fun z => Desc (kids tree.inner) x z := fun l =>
    List.countP_mono_left fun z _ hz =>
      decide_eq_true ((Desc.of_mem hc).trans (of_decide_eq_true hz))
  obtain ⟨before, after, heq⟩ := List.append_of_mem hx
  have hself : decide (Desc (kids tree.inner) x x) = true :=
    decide_eq_true Relation.ReflTransGen.refl
  have hnot : ¬ decide (Desc (kids tree.inner) y x) = true :=
    fun hd => hf.not_desc_of_mem hc (of_decide_eq_true hd)
  rw [heq, List.countP_append, List.countP_append, List.countP_cons, List.countP_cons,
    if_pos hself, if_neg hnot]
  have h₁ := hsub before
  have h₂ := hsub after
  omega

omit [SourcemapPaths] [LawfulWeakDom D] in
theorem weight_le (tree : RojoTree D) (x : Ref) : weight tree x ≤ tree.metadataMap.keys.length :=
  List.countP_le_length

/-- The fuel of the root is enough. -/
theorem rootNode_eq_some_iff (h : Inv tree) :
    rootNode options filter tree = some r ↔ Node options filter tree tree.getRootId r := by
  refine ⟨fun heq => ⟨_, heq⟩, ?_⟩
  rintro ⟨n, hn⟩
  suffices ∀ (n : ℕ) (x : Ref) (r : Option SourcemapNode),
      recurseCreateNode options filter tree n x = some r →
      recurseCreateNode options filter tree (weight tree x + 1) x = some r from
    recurseCreateNode_le (Nat.succ_le_succ (weight_le tree _)) (this n _ r hn)
  intro n
  induction n with
  | zero => exact fun x r h => nomatch h
  | succ n ih =>
    intro x r heq
    rw [recurseCreateNode] at heq ⊢
    obtain ⟨inst, hinst, heq⟩ := Option.bind_eq_some_iff.mp heq
    obtain ⟨children, hchildren, heq⟩ := Option.bind_eq_some_iff.mp heq
    have hkids : kids tree.inner x = inst.inst.children := by
      cases hi : getByRef tree.inner x with
      | none =>
        rw [getInstance_none hi] at hinst
        cases hinst
      | some i =>
        obtain ⟨m, hm⟩ := h.metadata_of_present hi
        rw [getInstance_eq hi hm] at hinst
        cases hinst
        exact kids_eq hi
    refine Option.bind_eq_some_iff.mpr ⟨inst, hinst, Option.bind_eq_some_iff.mpr
      ⟨children, mapM_eq_some_iff.mpr ?_, heq⟩⟩
    have hall := mapM_eq_some_iff.mp hchildren
    rw [List.forall₂_iff_get] at hall ⊢
    refine ⟨hall.1, fun i hi hi' => ?_⟩
    have hmem : inst.inst.children.get ⟨i, hi⟩ ∈ kids tree.inner x := by
      rw [hkids]
      exact List.get_mem _ _
    exact recurseCreateNode_le (weight_lt h hmem) (ih _ _ (hall.2 i hi hi'))

/-! ### What is in a sourcemap -/

omit [SourcemapPaths] [LawfulWeakDom D] in
theorem join_getInstance (h : Inv tree) : (tree.getInstance x).join = some inst ↔
    getByRef tree.inner x = some inst.inst ∧ tree.metadataMap.lookup x = some inst.metadata := by
  cases hi : getByRef tree.inner x with
  | none => simp [getInstance_none hi]
  | some i =>
    obtain ⟨m, hm⟩ := h.metadata_of_present hi
    obtain ⟨i', m'⟩ := inst
    rw [getInstance_eq hi hm, hm]
    simp

/-- The instance passes the filter, or one below it does. -/
def Visible (filter : InstanceWithMeta → Bool) (tree : RojoTree D) (x : Ref) : Prop :=
  ∃ y inst, Desc (kids tree.inner) x y ∧ (tree.getInstance y).join = some inst ∧ filter inst = true

/-- What the sourcemap has of the instance itself. -/
def display (options : SourcemapOptions) (tree : RojoTree D) (x : Ref) :
    MayPanic (String × String × List PathBuf) := do
  let inst ← (tree.getInstance x).join
  let filePaths ← outputFilePaths options inst
  some (inst.inst.name, inst.inst.className, filePaths)

omit [SourcemapPaths] [LawfulWeakDom D] in
theorem Visible.of_desc (hd : Desc (kids tree.inner) x y) (h : Visible filter tree y) :
    Visible filter tree x := by
  obtain ⟨z, inst, hyz, hinst, hf⟩ := h
  exact ⟨z, inst, hd.trans hyz, hinst, hf⟩

omit [SourcemapPaths] [LawfulWeakDom D] in
theorem visible_iff (hinst : (tree.getInstance x).join = some inst) : Visible filter tree x ↔
    filter inst = true ∨ ∃ c ∈ kids tree.inner x, Visible filter tree c := by
  constructor
  · rintro ⟨z, inst', hd, hinst', hf⟩
    rcases Relation.ReflTransGen.cases_head hd with rfl | ⟨c, hc, hd⟩
    · rw [hinst] at hinst'
      exact .inl (Option.some.inj hinst' ▸ hf)
    · exact .inr ⟨c, hc, z, inst', hd, hinst', hf⟩
  · rintro (hf | ⟨c, hc, hvisible⟩)
    · exact ⟨x, inst, Relation.ReflTransGen.refl, hinst, hf⟩
    · exact hvisible.of_desc (Desc.of_mem hc)

omit [WeakDom D] [LawfulWeakDom D] in
theorem createNode_eq_none {children : List SourcemapNode} :
    createNode options filter inst children = some none ↔
      children = [] ∧ filter inst = false := by
  unfold createNode
  split
  · next h => simpa using h
  · next h =>
    rw [Bool.and_eq_true, List.isEmpty_iff, Bool.not_eq_true'] at h
    refine iff_of_false (fun heq => ?_) h
    obtain ⟨filePaths, -, heq⟩ := Option.bind_eq_some_iff.mp heq
    cases heq

omit [WeakDom D] [LawfulWeakDom D] in
theorem createNode_eq_some {children : List SourcemapNode} {node : SourcemapNode} :
    createNode options filter inst children = some (some node) ↔
      (children ≠ [] ∨ filter inst = true) ∧ node.children = children ∧
        node.name = inst.inst.name ∧ node.className = inst.inst.className ∧
        outputFilePaths options inst = some node.filePaths := by
  unfold createNode
  split
  · next h =>
    rw [Bool.and_eq_true, List.isEmpty_iff, Bool.not_eq_true'] at h
    refine iff_of_false (fun heq => nomatch heq) fun hcon => ?_
    rcases hcon.1 with hne | hf
    · exact hne h.1
    · rw [h.2] at hf
      cases hf
  · next h =>
    rw [Bool.and_eq_true, List.isEmpty_iff, Bool.not_eq_true', not_and_or,
      Bool.not_eq_false] at h
    rw [and_iff_right h]
    obtain ⟨name, className, filePaths, children'⟩ := node
    cases outputFilePaths options inst with
    | none => simp
    | some paths =>
      simp only [Option.bind_eq_bind, Option.bind_some, Option.some.injEq, SourcemapNode.mk.injEq]
      constructor
      · rintro ⟨rfl, rfl, rfl, rfl⟩
        exact ⟨rfl, rfl, rfl, rfl⟩
      · rintro ⟨rfl, rfl, rfl, rfl⟩
        exact ⟨rfl, rfl, rfl, rfl⟩

omit [LawfulWeakDom D] in
/-- An instance is left out exactly if nothing below it passes the filter. -/
theorem Node.eq_none_iff (h : Inv tree) (hn : Node options filter tree x r) :
    r = none ↔ ¬ Visible filter tree x := by
  refine Node.induct (P := fun x r => r = none ↔ ¬ Visible filter tree x) ?_ hn
  intro x r inst children hinst hnodes hall hcreate
  rw [visible_iff hinst, kids_eq ((join_getInstance h).mp hinst).1]
  have hnil : children.filterMap id = [] ↔ ∀ c ∈ inst.inst.children, ¬ Visible filter tree c := by
    clear hcreate hnodes
    generalize inst.inst.children = l at hall
    induction hall with
    | nil => simp
    | cons hc _ ih =>
      rw [List.forall_mem_cons, ← hc, ← ih]
      cases ‹Option SourcemapNode› <;> simp
  cases r with
  | none =>
    obtain ⟨hchildren, hf⟩ := createNode_eq_none.mp hcreate
    refine iff_of_true rfl ?_
    rw [hf]
    rintro (hf | ⟨c, hc, hv⟩)
    · cases hf
    · exact hnil.mp hchildren c hc hv
  | some node =>
    refine iff_of_false (fun heq => nomatch heq) fun hno => ?_
    rw [not_or] at hno
    rcases (createNode_eq_some.mp hcreate).1 with hne | hf
    · exact hne (hnil.mpr fun c hc hv => hno.2 ⟨c, hc, hv⟩)
    · exact hno.1 hf

/-! ### Two trees -/

omit [WeakDom D] [SourcemapPaths] [LawfulWeakDom D] in
/-- Two lists of nodes that are there are the same only if the same ones are there. -/
theorem eq_of_filterMap_id {α : Type} {l l' : List (Option α)}
    (h : List.Forall₂ (fun a b => b.isSome = true → a.isSome = true) l l')
    (heq : l.filterMap id = l'.filterMap id) : l = l' := by
  have hle : ∀ {l l' : List (Option α)},
      List.Forall₂ (fun a b => b.isSome = true → a.isSome = true) l l' →
      (l'.filterMap id).length ≤ (l.filterMap id).length := by
    intro l l' h
    induction h with
    | nil => exact Nat.le_refl 0
    | @cons a b l l' hab _ ih =>
      cases a <;> cases b
      · exact ih
      · exact absurd (hab rfl) (by simp)
      · exact Nat.le_succ_of_le ih
      · exact Nat.succ_le_succ ih
  induction h with
  | nil => rfl
  | @cons a b l l' hab hrest ih =>
    cases a with
    | none =>
      cases b with
      | none => rw [ih heq]
      | some b => exact absurd (hab rfl) (by simp)
    | some a =>
      cases b with
      | none =>
        have hcons : a :: l.filterMap id = l'.filterMap id := heq
        have hlen := hle hrest
        rw [← hcons, List.length_cons] at hlen
        exact absurd hlen (Nat.not_succ_le_self _)
      | some b =>
        have hcons : a :: l.filterMap id = b :: l'.filterMap id := heq
        obtain ⟨rfl, htail⟩ := List.cons.inj hcons
        rw [ih htail]

omit [WeakDom D] [SourcemapPaths] [LawfulWeakDom D] in
theorem exists_of_forall₂_and {α β : Type} {P Q : α → β → Prop} {l : List α} {l' : List β}
    (h : List.Forall₂ P l l') (h' : List.Forall₂ Q l l') : ∀ a ∈ l, ∃ b, P a b ∧ Q a b := by
  induction h with
  | nil => exact fun _ ha => absurd ha List.not_mem_nil
  | cons hp _ ih =>
    cases h' with
    | cons hq hrest =>
      intro a ha
      rcases List.mem_cons.mp ha with rfl | ha
      · exact ⟨_, hp, hq⟩
      · exact ih hrest a ha

omit [WeakDom D] [SourcemapPaths] [LawfulWeakDom D] in
theorem forall₂_imp_mem {α β : Type} {P Q : α → β → Prop} {l : List α} {l' : List β}
    (h : List.Forall₂ P l l') (himp : ∀ a ∈ l, ∀ b, P a b → Q a b) : List.Forall₂ Q l l' := by
  induction h with
  | nil => exact .nil
  | cons hp _ ih =>
    exact .cons (himp _ List.mem_cons_self _ hp)
      (ih fun a ha => himp a (List.mem_cons_of_mem _ ha))

/-- The filter looks at the class only. -/
def ByClass (filter : InstanceWithMeta → Bool) : Prop :=
  ∀ inst inst' : InstanceWithMeta, inst.inst.className = inst'.inst.className →
    filter inst = filter inst'

/-- The instances do not pass the filter. -/
def Fail (filter : InstanceWithMeta → Bool) (tree : RojoTree D) (ids : List Ref) : Prop :=
  ∀ x ∈ ids, ∀ inst, (tree.getInstance x).join = some inst → filter inst = false

variable {new changed : List Ref}

/-- Added instances that do not pass the filter are left out. -/
theorem node_of_added (hs : Shows tree new changed tree') (hfail : Fail filter tree' new)
    (hx : x ∈ new) : Node options filter tree' x none := by
  induction hn : weight tree' x using Nat.strong_induction_on generalizing x with
  | _ n ih =>
    obtain ⟨i, hi⟩ := Option.isSome_iff_exists.mp ((hs.present x).mpr (.inr hx))
    obtain ⟨m, hm⟩ := hs.inv.metadata_of_present hi
    have hinst : (tree'.getInstance x).join = some ⟨i, m⟩ := (join_getInstance hs.inv).mpr ⟨hi, hm⟩
    have hkids : ∀ c ∈ i.children, Node options filter tree' c none := by
      intro c hc
      rw [← kids_eq hi] at hc
      exact ih _ (hn ▸ weight_lt hs.inv hc) (hs.made x hx c hc) rfl
    have hnones : (List.replicate i.children.length (none : Option SourcemapNode)).filterMap id =
        [] := by
      refine List.filterMap_eq_nil_iff.mpr fun r hr => ?_
      rw [List.eq_of_mem_replicate hr]
      rfl
    refine node_iff.mpr ⟨_, List.replicate i.children.length none, hinst, ?_, ?_⟩
    · generalize i.children = l at hkids
      induction l with
      | nil => exact .nil
      | cons c l ihl =>
        exact .cons (hkids c List.mem_cons_self)
          (ihl fun d hd => hkids d (List.mem_cons_of_mem _ hd))
    · rw [hnones]
      exact createNode_eq_none.mpr ⟨rfl, hfail x hx _ hinst⟩

/-- An old instance becomes a node made of those of its old children. -/
theorem node_old_iff (hs : Shows tree new changed tree') (hfail : Fail filter tree' new)
    {i : Instance} {inst' : InstanceWithMeta} {l : List Ref}
    (hinst : (tree'.getInstance x).join = some inst') (hchildren : inst'.inst.children = i.children ++ l)
    (hl : ∀ y ∈ l, y ∈ new) : Node options filter tree' x r ↔ ∃ children,
      List.Forall₂ (Node options filter tree') i.children children ∧
      createNode options filter inst' (children.filterMap id) = some r := by
  have hnones : ∀ rs : List (Option SourcemapNode), List.Forall₂ (Node options filter tree') l rs →
      rs.filterMap id = [] := by
    intro rs hrs
    refine List.filterMap_eq_nil_iff.mpr fun r hr => ?_
    obtain ⟨y, hy, hnode⟩ := exists_of_forall₂_right hrs hr
    rw [hnode.unique (node_of_added hs hfail (hl y hy))]
    rfl
  have hexists : ∃ rs, List.Forall₂ (Node options filter tree') l rs := by
    clear hchildren hnones
    induction l with
    | nil => exact ⟨[], .nil⟩
    | cons y l ih =>
      obtain ⟨rs, hrs⟩ := ih fun z hz => hl z (List.mem_cons_of_mem _ hz)
      exact ⟨_, .cons (node_of_added hs hfail (hl y List.mem_cons_self)) hrs⟩
  rw [node_iff]
  constructor
  · rintro ⟨inst, children, hinst', hall, hcreate⟩
    rw [hinst] at hinst'
    cases hinst'
    rw [hchildren] at hall
    obtain ⟨children₁, children₂, rfl, h₁, h₂⟩ : ∃ c₁ c₂, children = c₁ ++ c₂ ∧
        List.Forall₂ (Node options filter tree') i.children c₁ ∧
        List.Forall₂ (Node options filter tree') l c₂ :=
      ⟨_, _, (List.take_append_drop _ _).symm, (List.forall₂_take_append _ _ _ hall.flip).flip,
        (List.forall₂_drop_append _ _ _ hall.flip).flip⟩
    rw [List.filterMap_append, hnones _ h₂, List.append_nil] at hcreate
    exact ⟨children₁, h₁, hcreate⟩
  · rintro ⟨children, hall, hcreate⟩
    obtain ⟨rs, hrs⟩ := hexists
    refine ⟨inst', children ++ rs, hinst, hchildren ▸ List.rel_append hall hrs, ?_⟩
    rw [List.filterMap_append, hnones _ hrs, List.append_nil]
    exact hcreate

omit [LawfulWeakDom D] in
/-- What is put out of an instance is what its node has. -/
theorem display_of_createNode {node : SourcemapNode} {children : List SourcemapNode}
    (hinst : (tree.getInstance x).join = some inst)
    (hcreate : createNode options filter inst children = some (some node)) :
    display options tree x = some (node.name, node.className, node.filePaths) := by
  obtain ⟨-, -, hname, hclass, hpaths⟩ := createNode_eq_some.mp hcreate
  unfold display
  rw [hinst, hname, hclass]
  simp only [Option.bind_eq_bind, Option.bind_some, hpaths]

/-- Where added and changed instances do not pass the filter, an instance stays the same node
exactly if all that the sourcemap has of it and below it stays the same. -/
theorem node_iff_of_shows (h : Inv tree) (hf : ByClass filter)
    (hs : Shows tree new changed tree') (hnew : Fail filter tree' new)
    (hchanged : Fail filter tree' changed) (hn : Node options filter tree x r) :
    (∀ r', Node options filter tree' x r' → r'.isSome = true → r.isSome = true) ∧
      (Node options filter tree' x r ↔ ∀ y, Desc (kids tree.inner) x y →
        Visible filter tree y → display options tree' y = display options tree y) := by
  refine Node.induct (P := fun x r =>
    (∀ r', Node options filter tree' x r' → r'.isSome = true → r.isSome = true) ∧
      (Node options filter tree' x r ↔ ∀ y, Desc (kids tree.inner) x y →
        Visible filter tree y → display options tree' y = display options tree y)) ?_ hn
  intro x r inst children hinst hnodes hall hcreate
  have hnode : Node options filter tree x r := node_iff.mpr ⟨inst, children, hinst, hnodes, hcreate⟩
  obtain ⟨hi, hm⟩ := (join_getInstance h).mp hinst
  obtain ⟨i', m', l, hi', hm', hchildren, hl, hsame⟩ := hs.old x _ _ hi hm
  have hinst' : (tree'.getInstance x).join = some ⟨i', m'⟩ :=
    (join_getInstance hs.inv).mpr ⟨hi', hm'⟩
  have hold : ∀ r', Node options filter tree' x r' ↔ _ := fun r' =>
    node_old_iff hs hnew hinst' hchildren hl
  have hfilter : filter ⟨i', m'⟩ = true → filter inst = true := by
    intro hpass
    by_cases hx : x ∈ changed
    · rw [hchanged x hx _ hinst'] at hpass
      cases hpass
    · rwa [hf inst ⟨i', m'⟩ (hsame hx).2.1.symm]
  have hdominated : ∀ rs, List.Forall₂ (Node options filter tree') inst.inst.children rs →
      List.Forall₂ (fun a b => b.isSome = true → a.isSome = true) children rs := by
    intro rs hrs
    clear hcreate hnodes
    generalize inst.inst.children = cs at hall hrs
    induction hall generalizing rs with
    | nil =>
      cases hrs
      exact .nil
    | cons hc _ ih =>
      cases hrs with
      | cons hb hrest => exact .cons (hc.1 _ hb) (ih _ hrest)
  refine ⟨fun r' hr' hsome => ?_, ?_⟩
  · obtain ⟨children', hall', hcreate'⟩ := (hold r').mp hr'
    obtain ⟨node', rfl⟩ := Option.isSome_iff_exists.mp hsome
    rw [← Option.ne_none_iff_isSome]
    rintro rfl
    obtain ⟨hnil, hfail⟩ := createNode_eq_none.mp hcreate
    rcases (createNode_eq_some.mp hcreate').1 with hne | hpass
    · refine hne (List.filterMap_eq_nil_iff.mpr fun b hb => ?_)
      obtain ⟨a, ha, hab⟩ := exists_of_forall₂_right (hdominated _ hall') hb
      rw [List.filterMap_eq_nil_iff] at hnil
      have hnone : a = none := hnil a ha
      rw [hnone] at hab
      exact Option.not_isSome_iff_eq_none.mp fun hb => Bool.noConfusion (hab hb)
    · rw [hfilter hpass] at hfail
      cases hfail
  · have hkids := kids_eq hi
    constructor
    · intro hnode' y hd hvisible
      obtain ⟨children', hall', hcreate'⟩ := (hold r).mp hnode'
      cases r with
      | none => exact absurd (hvisible.of_desc hd) ((hnode.eq_none_iff h).mp rfl)
      | some node =>
        obtain ⟨-, hsub, -⟩ := createNode_eq_some.mp hcreate
        obtain ⟨-, hsub', -⟩ := createNode_eq_some.mp hcreate'
        have hsame := eq_of_filterMap_id (hdominated _ hall') (hsub.symm.trans hsub')
        rw [← hsame] at hall'
        rcases Relation.ReflTransGen.cases_head hd with rfl | ⟨c, hc, hd⟩
        · rw [display_of_createNode hinst hcreate, display_of_createNode hinst' hcreate']
        · have hmem : c ∈ inst.inst.children := hkids ▸ hc
          obtain ⟨rc, hboth⟩ := exists_of_forall₂_and hall hall' c hmem
          exact hboth.1.2.mp hboth.2 y hd hvisible
    · intro hall'
      have hchild : List.Forall₂ (Node options filter tree') inst.inst.children children := by
        refine forall₂_imp_mem hall fun c hc rc hp => hp.2.mpr fun y hd hvisible => ?_
        have hstep : c ∈ kids tree.inner x := by
          rw [hkids]
          exact hc
        exact hall' y (Relation.ReflTransGen.head hstep hd) hvisible
      refine (hold r).mpr ⟨children, hchild, ?_⟩
      cases r with
      | none =>
        obtain ⟨hnil, hfail⟩ := createNode_eq_none.mp hcreate
        refine createNode_eq_none.mpr ⟨hnil, ?_⟩
        rw [← Bool.not_eq_true]
        exact fun hpass => Bool.noConfusion (hfail.symm.trans (hfilter hpass))
      | some node =>
        have hvisible : Visible filter tree x := by
          by_contra hno
          cases (hnode.eq_none_iff h).mpr hno
        have hshown := hall' x Relation.ReflTransGen.refl hvisible
        rw [display_of_createNode hinst hcreate] at hshown
        unfold display at hshown
        obtain ⟨_, hget, hshown⟩ := Option.bind_eq_some_iff.mp hshown
        rw [hinst'] at hget
        cases hget
        obtain ⟨paths, hpaths, hshown⟩ := Option.bind_eq_some_iff.mp hshown
        obtain ⟨hname, hrest⟩ := Prod.mk.inj (Option.some.inj hshown)
        obtain ⟨hclass, hfiles⟩ := Prod.mk.inj hrest
        obtain ⟨hthere, hsub, -, hclass₀, -⟩ := createNode_eq_some.mp hcreate
        refine createNode_eq_some.mpr ⟨hthere.imp_right fun hpass => ?_, hsub, hname.symm,
          hclass.symm, hfiles ▸ hpaths⟩
        rw [← hf inst ⟨i', m'⟩ (hclass₀.symm.trans hclass.symm)]
        exact hpass

end Nodes

/-! ## Batches -/

/-- The patches of a batch are applied one after the other, and recorded. -/
inductive Patched : RojoTree D → List AppliedPatchSet → RojoTree D → Prop
  | nil (tree : RojoTree D) : Patched tree [] tree
  | cons {tree tree₁ tree' : RojoTree D} {patch : PatchSet} {applied : AppliedPatchSet}
      {rest : List AppliedPatchSet} : MetadataOk tree patch →
      applyPatchSet tree patch = some (tree₁, applied) → Patched tree₁ rest tree' →
      Patched tree (applied :: rest) tree'

section Batches

variable [LawfulWeakDom D] {options : SourcemapOptions} {filter : InstanceWithMeta → Bool}
  {tree tree' : RojoTree D} {sets : List AppliedPatchSet} {r : Option SourcemapNode} {x : Ref}

omit [SourcemapPaths] in
theorem Patched.shows (h : Inv tree) (hbatch : Patched tree sets tree')
    (hremoved : ∀ set ∈ sets, set.removed = []) :
    Shows tree (sets.flatMap AppliedPatchSet.added)
      (sets.flatMap fun set => changedIds set.updated) tree' := by
  induction hbatch with
  | nil tree => exact Shows.refl h
  | cons hmeta happly _ ih =>
    have hone := applyPatchSet_shows h hmeta happly (hremoved _ List.mem_cons_self)
    exact hone.trans (ih hone.inv fun set hset => hremoved set (List.mem_cons_of_mem _ hset))

omit [WeakDom D] [SourcemapPaths] [LawfulWeakDom D] in
theorem anyM_eq_some_false {α : Type} {p : α → Option Bool} {l : List α} :
    l.anyM p = some false ↔ ∀ a ∈ l, p a = some false := by
  induction l with
  | nil => simp
  | cons a l ih =>
    rw [List.anyM_cons, List.forall_mem_cons, ← ih]
    cases p a with
    | none => simp
    | some b => cases b <;> simp

omit [SourcemapPaths] [LawfulWeakDom D] in
theorem fail_of_filterInstance {ids : List Ref}
    (h : ∀ x ∈ ids, filterInstance tree filter x = some false) : Fail filter tree ids := by
  intro x hx inst hinst
  have hfilter := h x hx
  unfold filterInstance at hfilter
  rw [hinst] at hfilter
  exact Option.some.inj hfilter

omit [SourcemapPaths] [LawfulWeakDom D] in
/-- What a batch that does not affect the sourcemap has. -/
theorem of_not_affects (h : patchSetAffectsSourcemap tree sets filter = some false) :
    (∀ set ∈ sets, set.removed = []) ∧ Fail filter tree (sets.flatMap AppliedPatchSet.added) ∧
      Fail filter tree (sets.flatMap fun set => changedIds set.updated) := by
  have hset : ∀ set ∈ sets, set.removed = [] ∧
      (∀ x ∈ set.added, filterInstance tree filter x = some false) ∧
      ∀ x ∈ changedIds set.updated, filterInstance tree filter x = some false := by
    intro set hmem
    have hone := anyM_eq_some_false.mp h set hmem
    unfold setAffectsSourcemap at hone
    split at hone
    · cases hone
    · next hempty =>
      obtain ⟨added, hadded, hone⟩ := Option.bind_eq_some_iff.mp hone
      cases added with
      | true => cases hone
      | false =>
        refine ⟨by simpa using hempty, anyM_eq_some_false.mp hadded, fun x hx => ?_⟩
        obtain ⟨u, hu, rfl⟩ := List.mem_map.mp hx
        obtain ⟨hu, hchanges⟩ := List.mem_filter.mp hu
        have hupdated := anyM_eq_some_false.mp hone u hu
        rwa [if_pos hchanges] at hupdated
  refine ⟨fun set hmem => (hset set hmem).1, fail_of_filterInstance fun x hx => ?_,
    fail_of_filterInstance fun x hx => ?_⟩
  · obtain ⟨set, hmem, hx⟩ := List.mem_flatMap.mp hx
    exact (hset set hmem).2.1 x hx
  · obtain ⟨set, hmem, hx⟩ := List.mem_flatMap.mp hx
    exact (hset set hmem).2.2 x hx

/-- The instance is in the sourcemap of the tree. -/
def InSourcemap (filter : InstanceWithMeta → Bool) (tree : RojoTree D) (x : Ref) : Prop :=
  Desc (kids tree.inner) tree.getRootId x ∧ Visible filter tree x

omit [SourcemapPaths] in
theorem byClass_of (hf : filter = filterNothing ∨ filter = filterNonScripts) : ByClass filter := by
  rcases hf with rfl | rfl
  · exact fun _ _ _ => rfl
  · intro inst inst' h
    unfold filterNonScripts
    rw [h]

/-- **A sourcemap that is not written again is up to date** exactly if every updated instance that
is in it has the same name, class and files as before. -/
theorem skipped_iff (h : Inv tree) (hf : filter = filterNothing ∨ filter = filterNonScripts)
    (hbatch : Patched tree sets tree')
    (hskip : patchSetAffectsSourcemap tree' sets filter = some false)
    (hr : rootNode options filter tree = some r) :
    rootNode options filter tree' = some r ↔ ∀ set ∈ sets, ∀ u ∈ set.updated,
      u.changesNode = true → InSourcemap filter tree u.id →
      display options tree' u.id = display options tree u.id := by
  obtain ⟨hremoved, hnew, hchanged⟩ := of_not_affects hskip
  have hs := hbatch.shows h hremoved
  have hnode := (rootNode_eq_some_iff h).mp hr
  rw [rootNode_eq_some_iff hs.inv, hs.root,
    (node_iff_of_shows h (byClass_of hf) hs hnew hchanged hnode).2]
  constructor
  · exact fun hall set _ u _ _ hin => hall u.id hin.1 hin.2
  · intro hall y hd hvisible
    by_cases hy : y ∈ sets.flatMap fun set => changedIds set.updated
    · obtain ⟨set, hset, hy⟩ := List.mem_flatMap.mp hy
      obtain ⟨u, hu, rfl⟩ := List.mem_map.mp hy
      obtain ⟨hu, hchanges⟩ := List.mem_filter.mp hu
      exact hall set hset u hu hchanges ⟨hd, hvisible⟩
    · obtain ⟨j, hj, -⟩ := LawfulWeakDom.root_spec tree.inner
      obtain ⟨i, hi⟩ := Option.isSome_iff_exists.mp (present_of_desc
        (Option.isSome_of_eq_some hj) hd)
      obtain ⟨m, hm⟩ := h.metadata_of_present hi
      obtain ⟨i', m', -, hi', hm', -, -, hsame⟩ := hs.old y i m hi hm
      obtain ⟨hname, hclass, hpaths⟩ := hsame hy
      unfold display outputFilePaths
      rw [getInstance_eq hi hm, getInstance_eq hi' hm']
      simp only [Option.join_some, Option.bind_eq_bind, Option.bind_some, hname, hclass, hpaths]

end Batches

end

/-! ### A renamed folder -/

/-- No file is there. -/
@[reducible] def noFiles : SourcemapPaths where
  isFile _ := false
  absolute := some
  diffPaths path _ := some path

def scriptInFolder : InstanceSnapshot :=
  { InstanceSnapshot.new with
    name := "Game"
    className := "Folder"
    children := [{ InstanceSnapshot.new with
      name := "Module"
      className := "ModuleScript" }] }

def scriptTree : RojoTree MapDom := (RojoTree.new scriptInFolder).get rfl

def renameRoot : PatchSet :=
  { PatchSet.new with
    updatedInstances := [⟨scriptTree.getRootId, some "Place", none, ∅, none⟩] }

def renamed : RojoTree MapDom × AppliedPatchSet := (applyPatchSet scriptTree renameRoot).get rfl

theorem patched_renamed : Patched scriptTree [renamed.2] renamed.1 := by
  have happly : applyPatchSet scriptTree renameRoot = some renamed := (Option.some_get _).symm
  refine .cons (fun u hu hm => ?_) happly (.nil _)
  rw [List.mem_singleton.mp hu] at hm
  exact absurd rfl hm

def relativePaths : SourcemapOptions := ⟨⟨true, []⟩, false⟩

/-- The name of the root node. -/
def rootName (node : MayPanic (Option SourcemapNode)) : Option String :=
  (node.join).map SourcemapNode.name

/-- The folder above a script gets another name, and the sourcemap keeps the old one. -/
theorem not_fresh_renamed : letI := noFiles
    ¬ ∀ (options : SourcemapOptions) (filter : InstanceWithMeta → Bool) (tree tree' : RojoTree MapDom)
      (sets : List AppliedPatchSet) (r : Option SourcemapNode), Inv tree →
      filter = filterNothing ∨ filter = filterNonScripts → Patched tree sets tree' →
      patchSetAffectsSourcemap tree' sets filter = some false →
      rootNode options filter tree = some r → rootNode options filter tree' = some r := by
  let _ := noFiles
  intro hall
  have hinv : Inv scriptTree := Inv.new (Option.some_get _).symm
  have hnode : (rootNode relativePaths filterNonScripts scriptTree).isSome = true := by
    decide +kernel
  obtain ⟨r, hr⟩ := Option.isSome_iff_exists.mp hnode
  have hfresh := hall relativePaths filterNonScripts scriptTree renamed.1 [renamed.2] r hinv
    (.inr rfl) patched_renamed (by decide +kernel) hr
  have hname : rootName (rootNode relativePaths filterNonScripts renamed.1) ≠
      rootName (rootNode relativePaths filterNonScripts scriptTree) := by
    decide +kernel
  exact hname (congrArg rootName (hfresh.trans hr.symm))

/-- The batch is not one that the sourcemap is written for. -/
theorem skipped_renamed : letI := noFiles
    ∃ r, rootNode relativePaths filterNonScripts scriptTree = some r ∧
      (rootNode relativePaths filterNonScripts renamed.1 = some r ↔
        ∀ set ∈ [renamed.2], ∀ u ∈ set.updated, u.changesNode = true →
          InSourcemap filterNonScripts scriptTree u.id →
          display relativePaths renamed.1 u.id = display relativePaths scriptTree u.id) := by
  let _ := noFiles
  have hinv : Inv scriptTree := Inv.new (Option.some_get _).symm
  have hnode : (rootNode relativePaths filterNonScripts scriptTree).isSome = true := by
    decide +kernel
  obtain ⟨r, hr⟩ := Option.isSome_iff_exists.mp hnode
  exact ⟨r, hr, skipped_iff hinv (.inr rfl) patched_renamed (by decide +kernel) hr⟩

end Roxo
