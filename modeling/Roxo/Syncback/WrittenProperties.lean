import Roxo.Resolution
import Roxo.SnapshotMiddleware.DirectPaths
import Roxo.Syncback.Snapshot
import Roxo.Syncback.WrittenLinks

/-!
# Properties that are written

Syncback collects the properties of an instance that are to be written and its attributes, each in
a map that keeps the order. What is read of the maps is what was written, where a value can be told
from its text and the type of its property (`Collected.resolves`, `Collected.resolvesAttributes`).
-/

namespace Roxo

open AssocMap WeakDom

/-! ## Writing -/

/-- `IndexMap::insert`: a new key comes last, an old one keeps its place. -/
def indexInsert {V : Type} (key : String) (value : V) : List (String × V) → List (String × V)
  | [] => [(key, value)]
  | (k, v) :: entries =>
    if k = key then (key, value) :: entries else (k, v) :: indexInsert key value entries

/-- Entries with those for the attributes of a property, except for the internal ones. -/
def addAttributes (attributes : List (String × UnresolvedValue))
    (attrs : List (String × Variant)) : List (String × UnresolvedValue) :=
  attrs.foldl (fun attributes (attrName, attrValue) =>
    if (stripPrefix "RBX" attrName).isSome then attributes
    else indexInsert attrName (.fromVariantUnambiguous attrValue) attributes) attributes

section Collect

variable [ReflectionDatabase]

def collectEntry (className : String)
    (collected : List (String × UnresolvedValue) × List (String × UnresolvedValue)) :
    String × Variant → List (String × UnresolvedValue) × List (String × UnresolvedValue)
  | (_, .attributes attrs) => (collected.1, addAttributes collected.2 attrs)
  | (name, .value value) =>
    (indexInsert name (.fromVariant (.value value) className name) collected.1, collected.2)

/-- The loop over the properties to write: the entries for the properties and those for the
attributes. -/
def collectEntries (className : String) (properties : List (String × Variant)) :
    List (String × UnresolvedValue) × List (String × UnresolvedValue) :=
  properties.foldl (collectEntry className) ([], [])

end Collect

/-! ## Maps by their entries -/

section Entries

variable {V : Type} {key k : String} {value v : V} {entries : List (String × V)}

theorem keys_indexInsert : (indexInsert key value entries).map Prod.fst =
    if key ∈ entries.map Prod.fst then entries.map Prod.fst
    else entries.map Prod.fst ++ [key] := by
  induction entries with
  | nil => rfl
  | cons e entries ih =>
    obtain ⟨k, v⟩ := e
    unfold indexInsert
    by_cases hk : k = key
    · subst hk
      rw [if_pos rfl, if_pos (by exact List.mem_cons_self)]
      rfl
    · rw [if_neg hk, List.map_cons, List.map_cons, ih]
      by_cases hmem : key ∈ entries.map Prod.fst
      · rw [if_pos hmem, if_pos (List.mem_cons_of_mem _ hmem)]
      · rw [if_neg hmem, if_neg fun h => (List.mem_cons.mp h).elim (Ne.symm hk) hmem]
        rfl

theorem nodup_indexInsert (h : (entries.map Prod.fst).Nodup) :
    ((indexInsert key value entries).map Prod.fst).Nodup := by
  rw [keys_indexInsert]
  split_ifs with hmem
  · exact h
  · exact List.nodup_append.mpr ⟨h, List.nodup_singleton key, fun a ha b hb hab =>
      hmem (List.mem_singleton.mp hb ▸ hab ▸ ha)⟩

theorem mem_indexInsert (h : (entries.map Prod.fst).Nodup) :
    (k, v) ∈ indexInsert key value entries ↔
      k = key ∧ v = value ∨ k ≠ key ∧ (k, v) ∈ entries := by
  induction entries with
  | nil =>
    unfold indexInsert
    simp
  | cons e entries ih =>
    obtain ⟨k', v'⟩ := e
    obtain ⟨hnot, hrest⟩ := List.nodup_cons.mp h
    have hkeys : ∀ w, (k', w) ∉ entries := fun w hw =>
      hnot (List.mem_map.mpr ⟨(k', w), hw, rfl⟩)
    unfold indexInsert
    by_cases hk : k' = key
    · subst hk
      rw [if_pos rfl, List.mem_cons, List.mem_cons, Prod.mk.injEq, Prod.mk.injEq]
      constructor
      · rintro (hself | hmem)
        · exact Or.inl hself
        · exact Or.inr ⟨fun heq => hkeys v (heq ▸ hmem), Or.inr hmem⟩
      · rintro (hself | ⟨hne, ⟨heq, -⟩ | hmem⟩)
        · exact Or.inl hself
        · exact absurd heq hne
        · exact Or.inr hmem
    · rw [if_neg hk, List.mem_cons, List.mem_cons, ih hrest, Prod.mk.injEq]
      constructor
      · rintro (⟨rfl, rfl⟩ | hself | ⟨hne, hmem⟩)
        · exact Or.inr ⟨hk, Or.inl ⟨rfl, rfl⟩⟩
        · exact Or.inl hself
        · exact Or.inr ⟨hne, Or.inr hmem⟩
      · rintro (hself | ⟨hne, hhead | hmem⟩)
        · exact Or.inr (Or.inl hself)
        · exact Or.inl hhead
        · exact Or.inr (Or.inr ⟨hne, hmem⟩)

end Entries

/-- The entries write down the values of a map, each key once. -/
structure Tells (write : String → Variant → UnresolvedValue)
    (entries : List (String × UnresolvedValue)) (values : UstrMap Variant) : Prop where
  nodup : (entries.map Prod.fst).Nodup
  mem : ∀ k u, (k, u) ∈ entries ↔ ∃ v, values.lookup k = some v ∧ write k v = u

section Tells

variable {write : String → Variant → UnresolvedValue} {entries : List (String × UnresolvedValue)}
  {values : UstrMap Variant}

theorem Tells.nil : Tells write [] ∅ := by
  refine ⟨List.nodup_nil, fun k u => ⟨fun h => absurd h List.not_mem_nil, ?_⟩⟩
  rintro ⟨v, hv, -⟩
  rw [AList.lookup_empty] at hv
  cases hv

theorem Tells.insert (h : Tells write entries values) (key : String) (value : Variant) :
    Tells write (indexInsert key (write key value) entries) (values.insert key value) := by
  refine ⟨nodup_indexInsert h.nodup, fun k u => ?_⟩
  rw [mem_indexInsert h.nodup, h.mem, lookup_insert_eq]
  by_cases hk : k = key
  · subst hk
    rw [if_pos rfl]
    constructor
    · rintro (⟨-, rfl⟩ | ⟨hne, -⟩)
      · exact ⟨value, rfl, rfl⟩
      · exact absurd rfl hne
    · rintro ⟨v, hv, rfl⟩
      exact Or.inl ⟨rfl, by rw [Option.some.inj hv]⟩
  · rw [if_neg hk]
    constructor
    · rintro (⟨heq, -⟩ | ⟨-, hv⟩)
      · exact absurd heq hk
      · exact hv
    · exact fun hv => Or.inr ⟨hk, hv⟩

end Tells

/-! ## What is written -/

/-- The properties that are no attributes. -/
def plainProperties : List (String × Variant) → List (String × Variant)
  | [] => []
  | (_, .attributes _) :: properties => plainProperties properties
  | (name, .value value) :: properties => (name, .value value) :: plainProperties properties

/-- The attributes that are not internal. -/
def userAttributes : List (String × Variant) → List (String × Variant)
  | [] => []
  | (_, .attributes attrs) :: properties =>
    attrs.filter (fun attr => (stripPrefix "RBX" attr.1).isNone) ++ userAttributes properties
  | (_, .value _) :: properties => userAttributes properties

section Collected

variable {properties attributes : List (String × UnresolvedValue)}
  {written : List (String × Variant)} {values attrValues : UstrMap Variant} {className : String}

theorem Tells.addAttributes
    (h : Tells (fun _ v => .fromVariantUnambiguous v) attributes values)
    (attrs : List (String × Variant)) :
    Tells (fun _ v => .fromVariantUnambiguous v) (Roxo.addAttributes attributes attrs)
      (extend values (attrs.filter fun attr => (stripPrefix "RBX" attr.1).isNone)) := by
  unfold Roxo.addAttributes
  induction attrs generalizing attributes values with
  | nil => exact h
  | cons attr attrs ih =>
    obtain ⟨attrName, attrValue⟩ := attr
    rw [List.foldl_cons, List.filter_cons]
    dsimp only
    cases hinternal : stripPrefix "RBX" attrName with
    | some rest => exact ih h
    | none => exact ih (h.insert attrName attrValue)

variable [ReflectionDatabase]

theorem Tells.foldl_collectEntry
    (collected : List (String × UnresolvedValue) × List (String × UnresolvedValue))
    (hproperties : Tells (fun k v => .fromVariant v className k) collected.1 values)
    (hattributes : Tells (fun _ v => .fromVariantUnambiguous v) collected.2 attrValues) :
    Tells (fun k v => .fromVariant v className k)
        (written.foldl (collectEntry className) collected).1
        (extend values (plainProperties written)) ∧
      Tells (fun _ v => .fromVariantUnambiguous v)
        (written.foldl (collectEntry className) collected).2
        (extend attrValues (userAttributes written)) := by
  induction written generalizing collected values attrValues with
  | nil => exact ⟨hproperties, hattributes⟩
  | cons e written ih =>
    obtain ⟨name, value⟩ := e
    rw [List.foldl_cons]
    cases value with
    | attributes attrs =>
      unfold plainProperties userAttributes
      rw [extend_append]
      exact ih _ hproperties (hattributes.addAttributes attrs)
    | value value =>
      unfold plainProperties userAttributes
      rw [extend_cons]
      exact ih _ (hproperties.insert name (.value value)) hattributes

/-- The entries are those for what is written of an instance of the class. -/
structure Collected (className : String) (written : List (String × Variant))
    (properties attributes : List (String × UnresolvedValue)) : Prop where
  properties : Tells (fun k v => .fromVariant v className k) properties
    (extend ∅ (plainProperties written))
  attributes : Tells (fun _ v => .fromVariantUnambiguous v) attributes
    (extend ∅ (userAttributes written))

theorem collected_collectEntries (className : String) (written : List (String × Variant)) :
    Collected className written (collectEntries className written).1
      (collectEntries className written).2 := by
  obtain ⟨hproperties, hattributes⟩ :=
    Tells.foldl_collectEntry ([], []) Tells.nil Tells.nil
  exact ⟨hproperties, hattributes⟩

end Collected

/-! ## Reading -/

theorem fromUTF8?_toUTF8 (s : String) :
    String.fromUTF8? ⟨s.toUTF8.data.toList.toArray⟩ = some s := by
  unfold String.fromUTF8?
  rw [Array.toArray_toList]
  exact dif_pos s.isValidUTF8

/-- The environment resolves values as the source does. -/
structure ResolvesValues [Environment] [ReflectionDatabase] [ValueText] : Prop where
  resolve : ∀ (u : UnresolvedValue) (className propName : String) (v : Variant),
    u.resolve className propName = .ok v → Environment.resolve u className propName = .ok v
  resolveUnambiguous : ∀ (u : UnresolvedValue) (v : Variant),
    u.resolveUnambiguous = .ok v → Environment.resolveUnambiguous u = .ok v

section Values

variable [Environment] [ReflectionDatabase] [ValueText]

/-- A value comes back through its property. -/
theorem ResolvesValues.fromVariant (henv : ResolvesValues) {className propName : String}
    {v : Variant}
    (htakes : ∀ property, findDescriptor className propName = some property → property.Takes v)
    (hfloats : v.isFloatingPoint = false) (hwritten : v.Written) :
    Environment.resolve (.fromVariant v className propName) className propName = .ok v := by
  refine henv.resolve _ _ _ _ ?_
  cases hproperty : findDescriptor className propName with
  | none =>
    unfold UnresolvedValue.fromVariant
    rw [hproperty]
    rfl
  | some property =>
    exact resolve_fromVariant_known hproperty (htakes property hproperty) hfloats hwritten

theorem ResolvesValues.fromVariantUnambiguous (henv : ResolvesValues) (v : Variant) :
    Environment.resolveUnambiguous (.fromVariantUnambiguous v) = .ok v.asText := by
  refine henv.resolveUnambiguous _ _ ?_
  cases v with
  | attributes entries => rfl
  | value v =>
    cases v with
    | binaryString bytes =>
      unfold UnresolvedValue.fromVariantUnambiguous Variant.asText
      dsimp only
      cases String.fromUTF8? ⟨bytes.toArray⟩ with
      | none => rfl
      | some text => rfl
    | _ => rfl

end Values

/-- The value or a text for the failure. -/
def Fallible.orText {α : Type} : Fallible α → Except String α
  | .ok v => .ok v
  | .error _ => .error "Could not resolve the value"

/-- Values are resolved as in the source. -/
@[reducible] def Environment.resolving [ReflectionDatabase] [ValueText]
    (environment : Environment) : Environment :=
  { environment with
    resolve := fun u className propName => (u.resolve className propName).orText
    resolveUnambiguous := fun u => u.resolveUnambiguous.orText }

theorem resolvesValues_resolving [ReflectionDatabase] [ValueText] (environment : Environment) :
    letI := environment.resolving
    ResolvesValues := by
  let _ := environment.resolving
  constructor
  · intro u className propName v h
    show (u.resolve className propName).orText = .ok v
    rw [h]
    rfl
  · intro u v h
    show u.resolveUnambiguous.orText = .ok v
    rw [h]
    rfl

section Reading

variable [Environment] {className : String} {entries : List (String × UnresolvedValue)}
  {values : UstrMap Variant}

theorem resolveProperties_eq {g : String → Variant}
    (h : ∀ e ∈ entries, Environment.resolve e.2 className e.1 = .ok (g e.1)) :
    resolveProperties className entries =
      .ok (extend ∅ (entries.map fun e => (e.1, g e.1))) := by
  unfold resolveProperties
  generalize (∅ : UstrMap Variant) = start
  induction entries generalizing start with
  | nil => rfl
  | cons e entries ih =>
    obtain ⟨key, unresolved⟩ := e
    obtain ⟨hkey, hrest⟩ := List.forall_mem_cons.mp h
    rw [List.foldlM_cons, List.map_cons, extend_cons]
    dsimp only at hkey ⊢
    rw [hkey]
    exact ih hrest _

theorem resolveAttributes_eq {g : String → Variant}
    (h : ∀ e ∈ entries, Environment.resolveUnambiguous e.2 = .ok (g e.1)) :
    resolveAttributes entries =
      .ok (entries.foldl (fun resolved e => insertAttribute e.1 (g e.1) resolved) []) := by
  unfold resolveAttributes
  generalize ([] : List (String × Variant)) = start
  induction entries generalizing start with
  | nil => rfl
  | cons e entries ih =>
    obtain ⟨key, unresolved⟩ := e
    obtain ⟨hkey, hrest⟩ := List.forall_mem_cons.mp h
    rw [List.foldlM_cons, List.foldl_cons]
    dsimp only at hkey ⊢
    rw [hkey]
    exact ih hrest _

omit [Environment] in
theorem lookup_foldl_insertAttribute (g : String → Variant) (k : String) :
    (entries.foldl (fun resolved e => insertAttribute e.1 (g e.1) resolved) []).lookup k =
      if k ∈ entries.map Prod.fst then some (g k) else none := by
  induction entries using List.reverseRecOn with
  | nil => rfl
  | append_singleton entries e ih =>
    rw [List.foldl_concat, lookup_insertAttribute, ih, List.map_append, List.map_singleton]
    by_cases hk : k = e.1
    · subst hk
      rw [if_pos rfl, if_pos (List.mem_append_right _ List.mem_cons_self)]
    · rw [if_neg hk]
      refine if_congr ?_ rfl rfl
      rw [List.mem_append, List.mem_singleton, or_iff_left hk]

omit [Environment] in
theorem Tells.mem_keys {write : String → Variant → UnresolvedValue}
    (h : Tells write entries values) (k : String) :
    k ∈ entries.map Prod.fst ↔ (values.lookup k).isSome := by
  rw [Option.isSome_iff_exists]
  constructor
  · intro hk
    obtain ⟨⟨k', u⟩, he, rfl⟩ := List.mem_map.mp hk
    obtain ⟨v, hv, -⟩ := (h.mem k' u).mp he
    exact ⟨v, hv⟩
  · rintro ⟨v, hv⟩
    exact List.mem_map_of_mem (f := Prod.fst) ((h.mem k _).mpr ⟨v, hv, rfl⟩)


omit [Environment] in
/-- Values read for the entries go over those that were there before. -/
theorem Tells.lookup_extend {write : String → Variant → UnresolvedValue}
    (h : Tells write entries values) {g : String → Variant}
    (hg : ∀ k v, values.lookup k = some v → g k = v) (base : UstrMap Variant) (k : String) :
    (extend base (entries.map fun e => (e.1, g e.1))).lookup k =
      (values.lookup k).or (base.lookup k) := by
  have hkeys : (entries.map fun e => (e.1, g e.1)).map Prod.fst = entries.map Prod.fst := by
    rw [List.map_map]
    rfl
  cases hv : values.lookup k with
  | none =>
    rw [lookup_extend_of_not_mem, Option.none_or]
    rw [hkeys, h.mem_keys, hv]
    exact Bool.false_ne_true
  | some v =>
    rw [Option.some_or]
    refine lookup_extend_of_mem (hkeys ▸ h.nodup) ?_
    exact List.mem_map.mpr ⟨(k, write k v), (h.mem k _).mpr ⟨v, hv, rfl⟩,
      Prod.ext rfl (hg k v hv)⟩

theorem Tells.resolveAttributes
    (h : Tells (fun _ v => .fromVariantUnambiguous v) entries values)
    (hback : ∀ v : Variant,
      Environment.resolveUnambiguous (.fromVariantUnambiguous v) = .ok v.asText) :
    ∃ resolved, Roxo.resolveAttributes entries = .ok resolved ∧
      ∀ k, resolved.lookup k = (values.lookup k).map Variant.asText := by
  have heach : ∀ e ∈ entries, Environment.resolveUnambiguous e.2 =
      .ok ((values.lookup e.1).getD (.attributes [])).asText := by
    rintro ⟨k, u⟩ he
    obtain ⟨v, hv, rfl⟩ := (h.mem k u).mp he
    rw [hv]
    exact hback v
  refine ⟨_, resolveAttributes_eq
    (g := fun k => ((values.lookup k).getD (.attributes [])).asText) heach, fun k => ?_⟩
  rw [lookup_foldl_insertAttribute (fun k => ((values.lookup k).getD (.attributes [])).asText)]
  cases hv : values.lookup k with
  | none =>
    rw [if_neg, Option.map_none]
    rw [h.mem_keys, hv]
    exact Bool.false_ne_true
  | some v =>
    rw [if_pos, Option.map_some]
    · rfl
    · rw [h.mem_keys, hv]
      rfl

end Reading

/-! ## What was written is read -/

/-- What is read has the values that were written, and otherwise those of `base`. -/
structure Restores (base : UstrMap Variant) (written : List (String × Variant))
    (properties : UstrMap Variant) : Prop where
  plain : ∀ k, k ≠ "Attributes" ∨ userAttributes written = [] →
    properties.lookup k = (extend base (plainProperties written)).lookup k
  attributes : userAttributes written ≠ [] → ∃ attributes,
    properties.lookup "Attributes" = some (.attributes attributes) ∧
      ∀ a, attributes.lookup a = ((extend ∅ (userAttributes written)).lookup a).map Variant.asText

/-- The values can be told from what is written of them. -/
def Tellable [ReflectionDatabase] [ValueText] (className : String)
    (written : List (String × Variant)) : Prop :=
  ∀ k v, (k, v) ∈ plainProperties written →
    (∀ property, findDescriptor className k = some property → property.Takes v) ∧
      v.isFloatingPoint = false ∧ v.Written

section Restores

variable [Environment] [ReflectionDatabase] [ValueText] {className : String}
  {written : List (String × Variant)} {properties attributes : List (String × UnresolvedValue)}

theorem Collected.resolves (h : Collected className written properties attributes)
    (henv : ResolvesValues) (htell : Tellable className written) : ∃ g : String → Variant,
    (∀ e ∈ properties, Environment.resolve e.2 className e.1 = .ok (g e.1)) ∧
      ∀ base k, (extend base (properties.map fun e => (e.1, g e.1))).lookup k =
        (extend base (plainProperties written)).lookup k := by
  refine ⟨fun k => ((extend ∅ (plainProperties written)).lookup k).getD (.attributes []), ?_, ?_⟩
  · rintro ⟨k, u⟩ he
    obtain ⟨v, hv, rfl⟩ := (h.properties.mem k u).mp he
    dsimp only
    rw [hv]
    rcases mem_of_lookup_extend hv with hmem | hempty
    · obtain ⟨htakes, hfloats, hwritten⟩ := htell k v hmem
      exact henv.fromVariant htakes hfloats hwritten
    · rw [AList.lookup_empty] at hempty
      cases hempty
  · intro base k
    rw [AssocMap.lookup_extend base (plainProperties written)]
    refine h.properties.lookup_extend
      (g := fun k => ((extend ∅ (plainProperties written)).lookup k).getD (.attributes []))
      (fun k v hv => ?_) base k
    rw [hv]
    rfl

theorem Collected.resolvesAttributes (h : Collected className written properties attributes)
    (henv : ResolvesValues) : ∃ resolved, resolveAttributes attributes = .ok resolved ∧
      ∀ k, resolved.lookup k =
        ((extend ∅ (userAttributes written)).lookup k).map Variant.asText :=
  h.attributes.resolveAttributes henv.fromVariantUnambiguous

omit [Environment] [ValueText] in
theorem Collected.attributes_eq_nil_iff (h : Collected className written properties attributes) :
    attributes = [] ↔ userAttributes written = [] := by
  constructor
  · intro hempty
    refine List.eq_nil_iff_forall_not_mem.mpr fun attr hattr => ?_
    obtain ⟨v, hv⟩ := mem_extend (m := (∅ : UstrMap Variant))
      (List.mem_map_of_mem (f := Prod.fst) hattr)
    have hkey := (h.attributes.mem_keys attr.1).mpr (Option.isSome_of_eq_some hv)
    rw [hempty] at hkey
    cases hkey
  · intro hempty
    refine List.eq_nil_iff_forall_not_mem.mpr fun entry hentry => ?_
    have hsome := (h.attributes.mem_keys entry.1).mp
      (List.mem_map_of_mem (f := Prod.fst) hentry)
    rw [hempty, extend_nil, AList.lookup_empty] at hsome
    cases hsome

omit [Environment] [ReflectionDatabase] [ValueText] in
/-- The attributes are read after the properties. -/
theorem Restores.insert {base values : UstrMap Variant} {resolved : List (String × Variant)}
    (hplain : ∀ k, values.lookup k = (extend base (plainProperties written)).lookup k)
    (hresolved : ∀ k, resolved.lookup k =
      ((extend ∅ (userAttributes written)).lookup k).map Variant.asText) :
    userAttributes written ≠ [] →
      Restores base written (values.insert "Attributes" (.attributes resolved)) := by
  refine fun hsome => ⟨fun k hk => ?_, fun _ => ⟨resolved, AList.lookup_insert _, hresolved⟩⟩
  rw [AList.lookup_insert_ne (hk.resolve_right hsome)]
  exact hplain k

end Restores

/-- The old tree when nothing was synced before. -/
def blankTree : RojoTree MapDom := (RojoTree.new InstanceSnapshot.new).get rfl

end Roxo
