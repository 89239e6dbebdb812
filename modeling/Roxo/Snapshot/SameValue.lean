import Roxo.Snapshot.Patch

/-!
# Values that a patch takes for the same

Attributes that are taken for the same have the same names, and the texts of those that are texts
are the same. So they name the same instances by user-specified ids.
-/

namespace Roxo

open AssocMap

variable [FloatCmp]

/-- The same value, or one that a patch takes for the same. -/
def SameValue (v w : Variant) : Prop := v = w ∨ variantEq v w = some true

theorem SameValue.refl (v : Variant) : SameValue v v := Or.inl rfl

theorem eq_of_variantEq_ref {r : Ref} {w : Variant} (h : variantEq (.ref r) w = some true) :
    w = .ref r := by
  cases w with
  | attributes l => cases h
  | value w =>
    change valueEq (.ref r) w = some true at h
    cases w with
    | ref r' =>
      have hr : r = r' := beq_iff_eq.mp (Option.some.inj h)
      rw [hr]
    | _ => cases h

theorem variantEq_ref_self (r : Ref) : variantEq (.ref r) (.ref r) = some true :=
  congrArg some (beq_self_eq_true r)

/-! ## A comparison that has returned -/

omit [FloatCmp] in
theorem keypointsEq_left {K : Type} {time : K → F32} {eq : K → K → Bool} {a b : List K} {r : Bool}
    (h : keypointsEq time eq a b = some r) (hr : r = true) : keypointsEq time eq a a ≠ none := by
  unfold keypointsEq at h ⊢
  rw [if_neg (not_not.mpr rfl)]
  by_cases hlen : a.length = b.length
  · rw [if_neg (not_not.mpr hlen)] at h
    obtain ⟨l, hl, -⟩ := Option.bind_eq_some_iff.mp h
    rw [hl]
    exact Option.some_ne_none _
  · rw [if_pos hlen] at h
    rw [← Option.some.inj h] at hr
    cases hr

theorem valueEq_left {v w : Value} (h : valueEq v w = some true) : valueEq v v ≠ none := by
  cases v with
  | colorSequence a =>
    cases w with
    | colorSequence b =>
      unfold valueEq at h ⊢
      exact keypointsEq_left h rfl
    | _ => cases h
  | numberSequence a =>
    cases w with
    | numberSequence b =>
      unfold valueEq at h ⊢
      exact keypointsEq_left h rfl
    | _ => cases h
  | optionalCFrame o => cases o <;> exact Option.some_ne_none _
  | physicalProperties p => cases p <;> exact Option.some_ne_none _
  | tags a =>
    change (if a.length = a.length then _ else some false) ≠ none
    rw [if_pos rfl]
    exact Option.some_ne_none _
  | _ => exact Option.some_ne_none _

mutual

/-- What has been found to be the same can be compared with itself. -/
theorem variantEq_left : ∀ {v w : Variant}, variantEq v w = some true → variantEq v v ≠ none
  | .value v, .value w, h => by
    simp only [variantEq] at h ⊢
    exact valueEq_left h
  | .attributes a, .attributes b, h => by
    unfold variantEq at h ⊢
    rw [if_neg (not_not.mpr rfl)]
    by_cases hlen : a.length = b.length
    · rw [if_neg (not_not.mpr hlen)] at h
      exact attributesEq_left hlen h
    · rw [if_pos hlen] at h
      cases h
  | .value _, .attributes _, h => nomatch h
  | .attributes _, .value _, h => nomatch h

theorem attributesEq_left : ∀ {a b : List (String × Variant)}, a.length = b.length →
    attributesEq a b = some true → attributesEq a a ≠ none
  | [], _, _, _ => by
    unfold attributesEq
    exact Option.some_ne_none _
  | _ :: _, [], hlen, _ => nomatch hlen
  | (k, v) :: a, (l, w) :: b, hlen, h => by
    unfold attributesEq at h ⊢
    rw [if_pos rfl]
    by_cases hkl : k = l
    · rw [if_pos hkl] at h
      obtain ⟨r, hr, h⟩ := Option.bind_eq_some_iff.mp h
      cases r with
      | false => cases h
      | true =>
        obtain ⟨r', hr'⟩ := Option.ne_none_iff_exists'.mp (variantEq_left hr)
        rw [hr']
        cases r' with
        | true => exact attributesEq_left (Nat.succ.inj hlen) h
        | false => exact Option.some_ne_none _
    · rw [if_neg hkl] at h
      cases h

end

/-! ## Texts -/

theorem eq_of_variantEq_string {s : String} {w : Variant}
    (h : variantEq (.string s) w = some true) : w = .string s := by
  cases w with
  | attributes l => cases h
  | value w =>
    change valueEq (.string s) w = some true at h
    cases w with
    | string s' =>
      have hs : s = s' := beq_iff_eq.mp (Option.some.inj h)
      rw [hs]
    | _ => cases h

theorem eq_of_variantEq_binaryString {b : List UInt8} {w : Variant}
    (h : variantEq (.binaryString b) w = some true) : w = .binaryString b := by
  cases w with
  | attributes l => cases h
  | value w =>
    change valueEq (.binaryString b) w = some true at h
    cases w with
    | binaryString b' =>
      have hb : b = b' := beq_iff_eq.mp (Option.some.inj h)
      rw [hb]
    | _ => cases h

theorem eq_string_of_variantEq {v : Variant} {s : String}
    (h : variantEq v (.string s) = some true) : v = .string s := by
  cases v with
  | attributes l => cases h
  | value v =>
    change valueEq v (.string s) = some true at h
    cases v with
    | string s' =>
      have hs : s' = s := beq_iff_eq.mp (Option.some.inj h)
      rw [hs]
    | optionalCFrame o => cases o <;> cases h
    | physicalProperties p => cases p <;> cases h
    | _ => cases h

theorem eq_binaryString_of_variantEq {v : Variant} {b : List UInt8}
    (h : variantEq v (.binaryString b) = some true) : v = .binaryString b := by
  cases v with
  | attributes l => cases h
  | value v =>
    change valueEq v (.binaryString b) = some true at h
    cases v with
    | binaryString b' =>
      have hb : b' = b := beq_iff_eq.mp (Option.some.inj h)
      rw [hb]
    | optionalCFrame o => cases o <;> cases h
    | physicalProperties p => cases p <;> cases h
    | _ => cases h

omit [FloatCmp] in
theorem attributeString_eq_none {v : Variant} (hs : ∀ s, v ≠ .string s)
    (hb : ∀ b, v ≠ .binaryString b) : attributeString v = none := by
  unfold attributeString
  split
  · exact absurd rfl (hs _)
  · exact absurd rfl (hb _)
  · rfl

theorem SameValue.attributeString {v w : Variant} (h : SameValue v w) :
    attributeString v = attributeString w := by
  rcases h with rfl | h
  · rfl
  by_cases hw : ∃ s, w = .string s
  · obtain ⟨s, rfl⟩ := hw
    rw [eq_string_of_variantEq h]
  by_cases hw' : ∃ b, w = .binaryString b
  · obtain ⟨b, rfl⟩ := hw'
    rw [eq_binaryString_of_variantEq h]
  rw [attributeString_eq_none (fun s hs => hw ⟨s, hs⟩) fun b hb => hw' ⟨b, hb⟩,
    attributeString_eq_none]
  · rintro s rfl
    exact hw ⟨s, eq_of_variantEq_string h⟩
  · rintro b rfl
    exact hw' ⟨b, eq_of_variantEq_binaryString h⟩

/-! ## Attributes -/

/-- Two attributes with the same name and the same text, if they are texts. -/
def SameText (a b : String × Variant) : Prop :=
  a.1 = b.1 ∧ attributeString a.2 = attributeString b.2

theorem sameText_of_attributesEq {l l' : List (String × Variant)} (hlen : l.length = l'.length)
    (h : attributesEq l l' = some true) : List.Forall₂ SameText l l' := by
  induction l generalizing l' with
  | nil =>
    rw [List.length_nil, eq_comm, List.length_eq_zero_iff] at hlen
    rw [hlen]
    exact .nil
  | cons e l ih =>
    cases l' with
    | nil => cases hlen
    | cons e' l' =>
      unfold attributesEq at h
      by_cases hname : e.1 = e'.1
      · rw [if_pos hname] at h
        obtain ⟨r, hr, h⟩ := Option.bind_eq_some_iff.mp h
        cases r with
        | true => exact .cons ⟨hname, SameValue.attributeString (Or.inr hr)⟩ (ih (Nat.succ.inj hlen) h)
        | false => cases h
      · rw [if_neg hname] at h
        cases h

theorem SameValue.attributes {v w : Variant} (h : SameValue v w) :
    (∃ l l', v = .attributes l ∧ w = .attributes l' ∧ List.Forall₂ SameText l l') ∨
      (∀ l, v ≠ .attributes l) ∧ ∀ l, w ≠ .attributes l := by
  rcases h with rfl | h
  · cases v with
    | attributes l =>
      exact Or.inl ⟨l, l, rfl, rfl, List.forall₂_same.mpr fun _ _ => ⟨rfl, rfl⟩⟩
    | value v => exact Or.inr ⟨fun _ => Variant.noConfusion, fun _ => Variant.noConfusion⟩
  · cases v with
    | attributes l =>
      cases w with
      | attributes l' =>
        refine Or.inl ⟨l, l', rfl, rfl, ?_⟩
        unfold variantEq at h
        by_cases hlen : l.length = l'.length
        · rw [if_neg (not_not.mpr hlen)] at h
          exact sameText_of_attributesEq hlen h
        · rw [if_pos hlen] at h
          cases h
      | value w => cases h
    | value v =>
      cases w with
      | attributes l' => cases h
      | value w => exact Or.inr ⟨fun _ => Variant.noConfusion, fun _ => Variant.noConfusion⟩

omit [FloatCmp] in
theorem forall₂_pwFilter {l l' : List (String × Variant)} (h : List.Forall₂ SameText l l') :
    List.Forall₂ SameText (l.pwFilter fun a b => a.1 ≠ b.1) (l'.pwFilter fun a b => a.1 ≠ b.1) := by
  induction h with
  | nil => exact .nil
  | @cons a b l l' hab _ ih =>
    -- whether an attribute is kept depends on the names only
    have hkeep : (∀ c ∈ l.pwFilter (fun a b => a.1 ≠ b.1), a.1 ≠ c.1) ↔
        ∀ c ∈ l'.pwFilter (fun a b => a.1 ≠ b.1), b.1 ≠ c.1 := by
      rw [hab.1]
      generalize l.pwFilter (fun a b => a.1 ≠ b.1) = f at ih
      generalize l'.pwFilter (fun a b => a.1 ≠ b.1) = f' at ih
      induction ih with
      | nil => rfl
      | cons hcd _ ih => rw [List.forall_mem_cons, List.forall_mem_cons, ih, hcd.1]
    by_cases hc : ∀ c ∈ l.pwFilter (fun a b => a.1 ≠ b.1), a.1 ≠ c.1
    · rw [List.pwFilter_cons_of_pos hc, List.pwFilter_cons_of_pos (hkeep.mp hc)]
      exact .cons hab ih
    · rw [List.pwFilter_cons_of_neg hc, List.pwFilter_cons_of_neg (mt hkeep.mpr hc)]
      exact ih

section Congr

variable {a b : UstrMap Variant}

theorem forall₂_attributesOf
    (h : Option.Rel SameValue (a.lookup "Attributes") (b.lookup "Attributes")) :
    List.Forall₂ SameText (attributesOf a) (attributesOf b) := by
  unfold attributesOf
  generalize a.lookup "Attributes" = v at h
  generalize b.lookup "Attributes" = w at h
  cases h with
  | none => exact .nil
  | some hvw =>
    rcases hvw.attributes with ⟨l, l', rfl, rfl, hll⟩ | ⟨hv, hw⟩
    · exact forall₂_pwFilter hll
    · split
      · rename_i heq
        exact absurd (Option.some.inj heq) (hv _)
      · split
        · rename_i heq
          exact absurd (Option.some.inj heq) (hw _)
        · exact .nil

/-- Attributes that are the same to a patch set the same properties. -/
theorem pointersOf_congr
    (h : Option.Rel SameValue (a.lookup "Attributes") (b.lookup "Attributes")) :
    pointersOf a = pointersOf b := by
  have hsame := forall₂_attributesOf h
  unfold pointersOf refPointers
  generalize attributesOf a = l at hsame
  generalize attributesOf b = l' at hsame
  induction hsame with
  | nil => rfl
  | @cons a b _ _ hab _ ih =>
    obtain ⟨name, v⟩ := a
    obtain ⟨name', w⟩ := b
    obtain ⟨rfl, htext⟩ := hab
    rw [List.filterMap_cons, List.filterMap_cons, ih]
    dsimp only
    rw [htext]

/-- Attributes that are the same to a patch give their instance the same id. -/
theorem attributeId_congr
    (h : Option.Rel SameValue (a.lookup "Attributes") (b.lookup "Attributes")) :
    attributeId (attributesOf a) = attributeId (attributesOf b) := by
  have hsame := forall₂_attributesOf h
  unfold attributeId
  generalize attributesOf a = l at hsame
  generalize attributesOf b = l' at hsame
  generalize (none : Option RojoRef) = start
  induction hsame generalizing start with
  | nil => rfl
  | @cons a b _ _ hab _ ih =>
    obtain ⟨name, v⟩ := a
    obtain ⟨name', w⟩ := b
    obtain ⟨rfl, htext⟩ := hab
    rw [List.foldl_cons, List.foldl_cons, ih]
    dsimp only
    rw [htext]

end Congr

end Roxo
