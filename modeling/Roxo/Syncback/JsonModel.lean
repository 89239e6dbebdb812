import Roxo.Syncback.WrittenProperties

/-!
# JSON models

Syncback writes an instance with all that is below it as a JSON model, without the properties that
do not serialize or have their default and without internal attributes. The snapshot of the file
is the instance again (`syncbackJsonModel_readBack`).
-/

namespace Roxo

open AssocMap WeakDom Forest

/-! ## Writing -/

section

variable [ReflectionDatabase] [FloatCmp] {D : Type} [WeakDom D]

/-- The model of an instance and of all that is below it. -/
def jsonModelFromPair (snapshot : SyncbackSnapshot D) : ℕ → Ref → Fallible JsonModel
  | 0, _ => .error .stackOverflow
  | fuel + 1, new => do
    let newInst ← Fallible.unwrap (getByRef snapshot.data.newTree new)
    let filtered ← Fallible.unwrap (filterProperties snapshot.data.rules newInst)
    let (properties, attributes) := collectEntries newInst.className filtered
    let children ← newInst.children.mapM (jsonModelFromPair snapshot fuel)
    .ok
      { name := some newInst.name
        className := newInst.className
        children := children
        properties := properties
        attributes := attributes
        id := none
        schema := none }

/-- The model that is put in the file. -/
def syncbackJsonModel (snapshot : SyncbackSnapshot D) (fuel : ℕ) : Fallible JsonModel := do
  let model ← jsonModelFromPair snapshot fuel snapshot.new
  match ← snapshot.oldInst with
  | some oldInst => .ok { model with name := none, schema := oldInst.metadata.schema }
  | none => .ok { model with name := none }

end

theorem Except.mapM_eq_ok_iff {ε α β : Type} {f : α → Except ε β} {l : List α} {l' : List β} :
    l.mapM f = .ok l' ↔ List.Forall₂ (fun a b => f a = .ok b) l l' := by
  induction l generalizing l' with
  | nil =>
    rw [List.mapM_nil, List.forall₂_nil_left_iff]
    exact ⟨fun h => (Except.ok.inj h).symm, fun h => h ▸ rfl⟩
  | cons a l ih =>
    rw [List.mapM_cons, List.forall₂_cons_left_iff]
    constructor
    · intro h
      obtain ⟨b, hb, h⟩ := Except.bind_eq_ok.mp h
      obtain ⟨bs, hbs, h⟩ := Except.bind_eq_ok.mp h
      exact ⟨b, bs, hb, ih.mp hbs, (Except.ok.inj h).symm⟩
    · rintro ⟨b, bs, hb, hbs, rfl⟩
      exact Except.bind_eq_ok.mpr ⟨b, hb, Except.bind_eq_ok.mpr ⟨bs, ih.mpr hbs, rfl⟩⟩

theorem exists_forall₂_of_forall {α β : Type} {R : α → β → Prop} {l : List α}
    (h : ∀ a ∈ l, ∃ b, R a b) : ∃ l', List.Forall₂ R l l' := by
  induction l with
  | nil => exact ⟨[], .nil⟩
  | cons a l ih =>
    obtain ⟨⟨b, hb⟩, hrest⟩ := List.forall_mem_cons.mp h
    obtain ⟨l', hl'⟩ := ih hrest
    exact ⟨b :: l', .cons hb hl'⟩

/-! ## Reading -/

/-- The file has the text of the model. -/
def HoldsModel [Environment] (vfs : Vfs) (path : PathBuf) (model : JsonModel) : Prop :=
  ∃ contents text, vfs.read path = .ok contents ∧
    String.fromUTF8? ⟨contents.toArray⟩ = some text ∧ isBlank text = false ∧
    Environment.jsonModel text = .ok model

/-- The snapshot of a file is the snapshot of its model under the name of the file. -/
theorem HoldsModel.snapshotJsonModel [Environment] {vfs : Vfs} {path canonical : PathBuf}
    {model : JsonModel} {S : InstanceSnapshot} {name : String} (h : HoldsModel vfs path model)
    (hcanonical : vfs.canonicalize path = .ok canonical)
    (hinto : { model with name := some name, id := none, schema := none }.intoSnapshot = .ok S)
    (context : InstanceContext) :
    Roxo.snapshotJsonModel context vfs path name = .ok (some { S with metadata :=
      { instigatingSource := some (.path path), relevantPaths := [canonical], context := context
        specifiedId := model.id.map RojoRef.mk, schema := model.schema } }) := by
  obtain ⟨contents, text, hread, htext, hblank, hparsed⟩ := h
  have hmetadata : fileMetadata vfs path = .ok
      { instigatingSource := some (.path path), relevantPaths := [canonical] } :=
    Except.bind_eq_ok.mpr ⟨canonical, Fallible.ofIo_eq_ok.mpr hcanonical, rfl⟩
  unfold Roxo.snapshotJsonModel
  refine Except.bind_eq_ok.mpr ⟨contents, Fallible.ofIo_eq_ok.mpr hread,
    Except.bind_eq_ok.mpr ⟨text, Fallible.context_eq_ok.mpr htext, ?_⟩⟩
  rw [if_neg (by rw [hblank]; exact Bool.false_ne_true)]
  refine Except.bind_eq_ok.mpr ⟨model,
    Fallible.withContext_eq_ok.mpr (Fallible.ofText_eq_ok.mpr hparsed),
    Except.bind_eq_ok.mpr ⟨S, Fallible.withContext_eq_ok.mpr (Fallible.ofText_eq_ok.mpr hinto),
      Except.bind_eq_ok.mpr ⟨_, hmetadata, rfl⟩⟩⟩

/-! ## The round trip -/

section RoundTrip

variable [ReflectionDatabase] [FloatCmp] {D : Type} [WeakDom D]

mutual

/-- The snapshot is the instance with all that is below it, but for its name. -/
def ReadBack (snapshot : SyncbackSnapshot D) : InstanceSnapshot → Ref → Prop
  | ⟨_, _, _, className, properties, children⟩, x => ∃ inst written,
    getByRef snapshot.data.newTree x = some inst ∧
      filterProperties snapshot.data.rules inst = some written ∧
      className = inst.className ∧ Restores ∅ written properties ∧
      ReadBackAll snapshot children inst.children

def ReadBackAll (snapshot : SyncbackSnapshot D) : List InstanceSnapshot → List Ref → Prop
  | [], [] => True
  | child :: children, x :: xs =>
    (∃ inst, getByRef snapshot.data.newTree x = some inst ∧ child.name = inst.name) ∧
      ReadBack snapshot child x ∧ ReadBackAll snapshot children xs
  | _, _ => False

end

/-- What is written of the instance can be written and comes back. -/
structure Legible [ValueText] (snapshot : SyncbackSnapshot D) (x : Ref) (inst : Instance)
    (written : List (String × Variant)) : Prop where
  found : getByRef snapshot.data.newTree x = some inst
  filtered : filterProperties snapshot.data.rules inst = some written
  tellable : Tellable inst.className written

variable [Environment] [ValueText] {snapshot : SyncbackSnapshot D} {x : Ref}

omit [FloatCmp] in
/-- The properties of a model come back. -/
theorem Collected.insertAttributes {className : String} {written : List (String × Variant)}
    {properties attributes : List (String × UnresolvedValue)}
    (h : Collected className written properties attributes) (henv : ResolvesValues)
    (htell : Tellable className written) :
    ∃ resolved restored, resolveProperties className properties = .ok resolved ∧
      Roxo.insertAttributes attributes resolved = .ok restored ∧ Restores ∅ written restored := by
  obtain ⟨g, hg, hplain⟩ := h.resolves henv htell
  obtain ⟨attrs, hattrs, hlookup⟩ := h.resolvesAttributes henv
  unfold Roxo.insertAttributes
  by_cases hempty : attributes = []
  · have hnone := h.attributes_eq_nil_iff.mp hempty
    exact ⟨_, _, resolveProperties_eq hg, if_pos hempty, fun k _ => hplain ∅ k,
      fun hsome => absurd hnone hsome⟩
  · refine ⟨_, _, resolveProperties_eq hg, ?_, Restores.insert (hplain ∅) hlookup fun hnone =>
      hempty (h.attributes_eq_nil_iff.mpr hnone)⟩
    rw [if_neg hempty]
    exact Except.bind_eq_ok.mpr ⟨attrs, hattrs, rfl⟩

omit [Environment] [ValueText] in
/-- A model that is written has the name of its instance, no id and no schema. -/
theorem jsonModelFromPair_eq_ok {n : ℕ} {model : JsonModel}
    (h : jsonModelFromPair snapshot n x = .ok model) :
    ∃ inst written children properties attributes,
      getByRef snapshot.data.newTree x = some inst ∧
      filterProperties snapshot.data.rules inst = some written ∧
      List.Forall₂ (fun c m => jsonModelFromPair snapshot (n - 1) c = .ok m)
        inst.children children ∧
      Collected inst.className written properties attributes ∧
      model = ⟨none, some inst.name, inst.className, none, children, properties, attributes⟩ := by
  cases n with
  | zero => cases h
  | succ n =>
    rw [jsonModelFromPair] at h
    obtain ⟨inst, hinst, h⟩ := Except.bind_eq_ok.mp h
    obtain ⟨written, hwritten, h⟩ := Except.bind_eq_ok.mp h
    obtain ⟨children, hchildren, h⟩ := Except.bind_eq_ok.mp h
    exact ⟨inst, written, children, _, _, Fallible.unwrap_eq_ok.mp hinst,
      Fallible.unwrap_eq_ok.mp hwritten, Except.mapM_eq_ok_iff.mp hchildren,
      collected_collectEntries inst.className written, (Except.ok.inj h).symm⟩

omit [ValueText] in
/-- The models of the children read back if each of them does. -/
theorem readBackAll_of_forall₂ {n : ℕ} {ids : List Ref} {children : List JsonModel}
    (hchildren : List.Forall₂ (fun c m => jsonModelFromPair snapshot n c = .ok m) ids children)
    (hback : ∀ c ∈ ids, ∀ m, jsonModelFromPair snapshot n c = .ok m → ∀ name,
      ∃ S, { m with name := some name, id := none, schema := none }.intoSnapshot = .ok S ∧
        S.name = name ∧ ReadBack snapshot S c) :
    ∃ Ss, JsonModel.intoSnapshots children = .ok Ss ∧ ReadBackAll snapshot Ss ids := by
  induction hchildren with
  | nil =>
    refine ⟨[], rfl, ?_⟩
    unfold ReadBackAll
    trivial
  | @cons c child cs children hchild _ ih =>
    obtain ⟨hc, hcs⟩ := List.forall_mem_cons.mp hback
    obtain ⟨Ss, hSs, hall⟩ := ih hcs
    obtain ⟨j, writtenOf, below, _, _, hj, -, -, -, rfl⟩ := jsonModelFromPair_eq_ok hchild
    obtain ⟨S, hS, hname, hself⟩ := hc _ hchild j.name
    refine ⟨S :: Ss, ?_, ?_⟩
    · rw [JsonModel.intoSnapshots, hS]
      show (JsonModel.intoSnapshots children >>= fun Ss => .ok (S :: Ss)) = .ok (S :: Ss)
      rw [hSs]
      rfl
    · unfold ReadBackAll
      exact ⟨⟨j, hj, hname⟩, hself, hall⟩

/-- **A model that was written reads back**, if what is written of the instances is legible. -/
theorem readBack_of_written (henv : ResolvesValues)
    (hlegible : ∀ y, Desc (kids snapshot.data.newTree) x y →
      ∃ inst written, Legible snapshot y inst written)
    {n : ℕ} {model : JsonModel} (h : jsonModelFromPair snapshot n x = .ok model) (name : String) :
    ∃ S, { model with name := some name, id := none, schema := none }.intoSnapshot = .ok S ∧
      S.name = name ∧ ReadBack snapshot S x := by
  induction n generalizing x model name with
  | zero => cases h
  | succ n ih =>
    obtain ⟨inst, written, children, properties, attributes, hinst, hwritten, hchildren,
      hcollected, rfl⟩ := jsonModelFromPair_eq_ok h
    obtain ⟨inst', written', hleg⟩ := hlegible x .refl
    obtain rfl := Option.some.inj (hinst.symm.trans hleg.found)
    obtain rfl := Option.some.inj (hwritten.symm.trans hleg.filtered)
    obtain ⟨resolved, restored, hresolved, hrestored, hrestores⟩ :=
      hcollected.insertAttributes henv hleg.tellable
    obtain ⟨Ss, hSs, hall⟩ : ∃ Ss, JsonModel.intoSnapshots children = .ok Ss ∧
        ReadBackAll snapshot Ss inst.children :=
      readBackAll_of_forall₂ hchildren fun c hc child hchild name => by
        refine ih (fun y hd => ?_) hchild name
        rw [← kids_eq hinst] at hc
        exact hlegible y ((Desc.of_mem hc).trans hd)
    refine ⟨⟨Ref.none, {}, name, inst.className, restored, Ss⟩, ?_, rfl, ?_⟩
    · rw [JsonModel.intoSnapshot]
      exact Except.bind_eq_ok.mpr ⟨Ss, hSs, Except.bind_eq_ok.mpr ⟨resolved, hresolved,
        Except.bind_eq_ok.mpr ⟨restored, hrestored, rfl⟩⟩⟩
    · unfold ReadBack
      exact ⟨inst, written, hinst, hwritten, rfl, hrestores, hall⟩

end RoundTrip

/-! ## Enough fuel -/

section Fuel

variable [ReflectionDatabase] [FloatCmp] {D : Type} [WeakDom D] [FiniteWeakDom D]

omit [ReflectionDatabase] [FloatCmp] in
open Classical in
/-- How many instances are at or below one. -/
noncomputable def countBelow (dom : D) (x : Ref) : ℕ :=
  (FiniteWeakDom.refs dom).countP fun y => Desc (kids dom) x y

variable [LawfulWeakDom D] {snapshot : SyncbackSnapshot D} {x y : Ref} {inst : Instance}

omit [ReflectionDatabase] [FloatCmp] in
theorem countBelow_lt {dom : D} (hi : getByRef dom x = some inst) (hc : y ∈ inst.children) :
    countBelow dom y < countBelow dom x := by
  classical
  have hmem : y ∈ kids dom x := (kids_eq hi).symm ▸ hc
  obtain ⟨before, after, heq⟩ := List.append_of_mem (FiniteWeakDom.mem_refs dom hi)
  have hsub : ∀ l : List Ref, l.countP (fun z => Desc (kids dom) y z) ≤
      l.countP fun z => Desc (kids dom) x z := fun l =>
    List.countP_mono_left fun z _ hz =>
      decide_eq_true ((Desc.of_mem hmem).trans (of_decide_eq_true hz))
  have hself : decide (Desc (kids dom) x x) = true :=
    decide_eq_true Relation.ReflTransGen.refl
  have hnot : ¬ decide (Desc (kids dom) y x) = true := fun hd =>
    (LawfulWeakDom.forest dom).not_desc_of_mem hmem (of_decide_eq_true hd)
  unfold countBelow
  rw [heq, List.countP_append, List.countP_append, List.countP_cons, List.countP_cons,
    if_pos hself, if_neg hnot]
  have hbefore := hsub before
  have hafter := hsub after
  omega

omit [LawfulWeakDom D] [ReflectionDatabase] [FloatCmp] in
theorem countBelow_pos {dom : D} (hi : getByRef dom x = some inst) : 0 < countBelow dom x := by
  classical
  unfold countBelow
  rw [List.countP_pos_iff]
  exact ⟨x, FiniteWeakDom.mem_refs dom hi, decide_eq_true Relation.ReflTransGen.refl⟩

variable [ValueText]

/-- The calls end. -/
theorem exists_written {n : ℕ} (hn : countBelow snapshot.data.newTree x ≤ n)
    (hlegible : ∀ y, Desc (kids snapshot.data.newTree) x y →
      ∃ inst written, Legible snapshot y inst written) :
    ∃ model, jsonModelFromPair snapshot n x = .ok model := by
  induction n generalizing x with
  | zero =>
    obtain ⟨inst, written, hleg⟩ := hlegible x .refl
    exact absurd hn (Nat.not_le.mpr (countBelow_pos hleg.found))
  | succ n ih =>
    obtain ⟨inst, written, hleg⟩ := hlegible x .refl
    have heach : ∀ c ∈ inst.children, ∃ m, jsonModelFromPair snapshot n c = .ok m := by
      intro c hc
      refine ih (Nat.le_of_lt_succ ((countBelow_lt hleg.found hc).trans_le hn)) fun y hd => ?_
      rw [← kids_eq hleg.found] at hc
      exact hlegible y ((Desc.of_mem hc).trans hd)
    obtain ⟨children, hchildren⟩ := exists_forall₂_of_forall heach
    refine ⟨⟨none, some inst.name, inst.className, none, children,
      (collectEntries inst.className written).1,
      (collectEntries inst.className written).2⟩, ?_⟩
    rw [jsonModelFromPair, hleg.found]
    refine Except.bind_eq_ok.mpr ⟨inst, rfl, Except.bind_eq_ok.mpr ⟨written, ?_,
      Except.bind_eq_ok.mpr ⟨children, Except.mapM_eq_ok_iff.mpr hchildren, rfl⟩⟩⟩
    rw [hleg.filtered]
    rfl

/-- **The file of a JSON model reads back.** Given as much fuel as there are instances, the model
is written, and the snapshot of a file with the text of the model is the instance with all that is
below it, under the name of the file. The schema is the one the file had before, and there is no
id. -/
theorem syncbackJsonModel_readBack [Environment] (henv : ResolvesValues)
    {old : Option InstanceWithMeta} (hold : snapshot.oldInst = .ok old)
    (hlegible : ∀ y, Desc (kids snapshot.data.newTree) snapshot.new y →
      ∃ inst written, Legible snapshot y inst written)
    {fuel : ℕ} (hfuel : (FiniteWeakDom.refs snapshot.data.newTree).length ≤ fuel)
    {vfs : Vfs} {path canonical : PathBuf}
    (hfile : ∀ model, syncbackJsonModel snapshot fuel = .ok model → HoldsModel vfs path model)
    (hcanonical : vfs.canonicalize path = .ok canonical) (context : InstanceContext)
    (name : String) :
    ∃ model S, syncbackJsonModel snapshot fuel = .ok model ∧
      snapshotJsonModel context vfs path name = .ok (some S) ∧ S.name = name ∧
      S.metadata.schema = old.bind (·.metadata.schema) ∧ S.metadata.specifiedId = none ∧
      ReadBack snapshot S snapshot.new := by
  obtain ⟨model, hmodel⟩ := exists_written (List.countP_le_length.trans hfuel) hlegible
  obtain ⟨S, hS, hname, hread⟩ := readBack_of_written henv hlegible hmodel name
  obtain ⟨inst, written, children, properties, attributes, -, -, -, -, rfl⟩ :=
    jsonModelFromPair_eq_ok hmodel
  obtain ⟨root, hroot, hid, hschema, hsame⟩ : ∃ root, syncbackJsonModel snapshot fuel = .ok root ∧
      root.id = none ∧ root.schema = old.bind (·.metadata.schema) ∧
      { root with name := some name, id := none, schema := none } =
        ⟨none, some name, inst.className, none, children, properties, attributes⟩ := by
    unfold syncbackJsonModel
    rw [hmodel, hold]
    cases old with
    | none => exact ⟨_, rfl, rfl, rfl, rfl⟩
    | some oldInst => exact ⟨_, rfl, rfl, rfl, rfl⟩
  refine ⟨root, _, hroot,
    (hfile root hroot).snapshotJsonModel hcanonical (hsame ▸ hS) context, hname, hschema, ?_, ?_⟩
  · rw [hid]
    rfl
  · cases S
    unfold ReadBack at hread ⊢
    exact hread

end Fuel

/-! ### A value with attributes -/

/-- A value with an attribute of its own and an internal one, and a folder in it. -/
def speedDom : MapDom where
  nodes := [⟨0, none, "Speed", "IntValue",
      ((∅ : UstrMap Variant).insert "Value" (.value (.int64 5))).insert "Attributes"
        (.attributes [("RBXHidden", .bool true), ("Unit", .string "studs")])⟩,
    ⟨MapDom.firstFree, some 0, "Notes", "Folder", ∅⟩]
  root := 0
  next := MapDom.firstFree + 1
  sorted := by decide
  parents := by decide
  has_root := by decide
  bound := by decide

def speedSnapshot : SyncbackSnapshot MapDom where
  data :=
    { oldTree := blankTree
      newTree := speedDom
      rules := none
      debugModelFormat := none }
  old := none
  new := Ref.some 0
  path := ⟨true, ["Speed.model.json"]⟩
  middleware := some .jsonModel

/-- The text is the one of the model. -/
@[reducible] def Environment.ofJsonModel (text : String) (model : Fallible JsonModel) :
    Environment :=
  { Environment.ofProjects [] with
    jsonModel := fun contents => if contents = text then model.orText else .error "No model" }

/-- What `serde_json` writes for the model. -/
def speedText : String :=
  "\x7b\n  \"className\": \"IntValue\",\n  \"children\": [\n    \x7b\n" ++
    "      \"name\": \"Notes\",\n      \"className\": \"Folder\"\n    \x7d\n  ],\n" ++
    "  \"properties\": \x7b\n    \"Value\": 5.0\n  \x7d,\n" ++
    "  \"attributes\": \x7b\n    \"Unit\": \"studs\"\n  \x7d\n\x7d"

/-- The file that syncback made. -/
def speedDisk : Disk where
  entries := [(["Speed.model.json"], some speedText.toUTF8.data.toList)]
  named := by decide

theorem holdsModel_speed : letI := intValueDatabase
    letI := FloatCmp.exact
    letI := uriText
    letI := (Environment.ofJsonModel speedText (syncbackJsonModel speedSnapshot 2)).resolving
    ∀ model, syncbackJsonModel speedSnapshot 2 = .ok model →
      HoldsModel speedDisk.vfs speedSnapshot.path model := by
  let _ := intValueDatabase
  let _ := FloatCmp.exact
  let _ := uriText
  let _ := (Environment.ofJsonModel speedText (syncbackJsonModel speedSnapshot 2)).resolving
  intro model hmodel
  refine ⟨speedText.toUTF8.data.toList, speedText, rfl, fromUTF8?_toUTF8 speedText, ?_, ?_⟩
  · decide +kernel
  · show (if speedText = speedText then (syncbackJsonModel speedSnapshot 2).orText
      else .error "No model") = .ok model
    rw [if_pos rfl, hmodel]
    rfl

theorem skipsProperty_speed : letI := intValueDatabase
    skipsProperty none "IntValue" "Value" (.value (.int64 5)) = false ∧
      skipsProperty none "IntValue" "Attributes"
        (.attributes [("RBXHidden", .bool true), ("Unit", .string "studs")]) = false := by
  let _ := intValueDatabase
  have hvalue : shouldPropertySerialize "IntValue" "Value" = true := by
    unfold shouldPropertySerialize
    rfl
  have hattributes : shouldPropertySerialize "IntValue" "Attributes" = true := by
    unfold shouldPropertySerialize
    rfl
  exact ⟨by simp [skipsProperty, hvalue], by simp [skipsProperty, hattributes]⟩

/-- What is written of the instance. -/
def speedWritten : List (String × Variant) :=
  [("Attributes", .attributes [("RBXHidden", .bool true), ("Unit", .string "studs")]),
    ("Value", .value (.int64 5))]

theorem filterProperties_speed : letI := intValueDatabase; letI := FloatCmp.exact
    ∀ n ∈ speedDom.nodes, filterProperties none (MapDom.toInstance speedDom.nodes n) =
      some (if n.id = 0 then speedWritten else []) := by
  let _ := intValueDatabase
  let _ := FloatCmp.exact
  obtain ⟨hvalue, hattributes⟩ := skipsProperty_speed
  intro n hn
  rcases List.mem_pair.mp hn with rfl | rfl
  · unfold filterProperties
    have hlist : toList (((∅ : UstrMap Variant).insert "Value" (.value (.int64 5))).insert
        "Attributes" (.attributes [("RBXHidden", .bool true), ("Unit", .string "studs")])) =
        speedWritten := rfl
    unfold MapDom.toInstance
    rw [hlist]
    unfold speedWritten filterLoop
    dsimp only
    rw [hattributes]
    unfold filterLoop
    rw [hvalue]
    rfl
  · rfl

theorem legible_speed {y : Ref}
    (hy : Desc (kids speedDom) (Ref.some 0) y) : letI := intValueDatabase
    letI := FloatCmp.exact
    letI := uriText
    ∃ inst written, Legible speedSnapshot y inst written := by
  let _ := intValueDatabase
  let _ := FloatCmp.exact
  let _ := uriText
  have hroot : getByRef speedDom (Ref.some 0) =
      some (MapDom.toInstance speedDom.nodes (speedDom.nodes.head (by decide))) := rfl
  obtain ⟨inst, hinst⟩ := present_of_desc hroot hy
  obtain ⟨n, hn, -, rfl⟩ := (MapDom.lookupNode_eq_some speedDom.sorted).mp hinst
  refine ⟨_, _, hinst, filterProperties_speed n hn, fun k v hmem => ?_⟩
  rcases List.mem_pair.mp hn with rfl | rfl
  · obtain ⟨rfl, rfl⟩ := Prod.mk.inj (List.mem_singleton.mp hmem)
    refine ⟨fun property hproperty => ?_, rfl, .inl (by decide)⟩
    obtain rfl := Option.some.inj (findDescriptor_intValue.symm.trans hproperty)
    exact .inl rfl
  · cases hmem

/-- The value comes back with its unit, without the internal attribute. -/
theorem syncbackJsonModel_speed : letI := intValueDatabase
    letI := FloatCmp.exact
    letI := uriText
    letI := (Environment.ofJsonModel speedText (syncbackJsonModel speedSnapshot 2)).resolving
    ∃ model S, syncbackJsonModel speedSnapshot 2 = .ok model ∧
      snapshotJsonModel {} speedDisk.vfs speedSnapshot.path "Speed" = .ok (some S) ∧
      S.name = "Speed" ∧ S.metadata.schema = none ∧ S.metadata.specifiedId = none ∧
      ReadBack speedSnapshot S (Ref.some 0) := by
  let _ := intValueDatabase
  let _ := FloatCmp.exact
  let _ := uriText
  let _ := (Environment.ofJsonModel speedText (syncbackJsonModel speedSnapshot 2)).resolving
  exact syncbackJsonModel_readBack (resolvesValues_resolving _)
    (rfl : speedSnapshot.oldInst = .ok none) (fun y hy => legible_speed hy) (by decide)
    holdsModel_speed
    (rfl : speedDisk.vfs.canonicalize speedSnapshot.path = .ok _) {} "Speed"

end Roxo
