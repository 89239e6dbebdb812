import Roxo.Syncback.Hash

/-!
# What the bytes of a value say about it

The bytes of two values that are fed to the hasher say nothing about their kinds or lengths. Where
the values are cut alike, they have the same bytes exactly if a patch takes them for the same.
-/

namespace Roxo

/-! ## Bytes -/

theorem asBytes_inj {s t : String} : asBytes s = asBytes t ↔ s = t := by
  unfold asBytes
  rw [Array.toList_inj, ← String.toByteArray_inj]
  exact ⟨fun h => ByteArray.ext h, fun h => congrArg _ h⟩

@[simp] theorem length_toLeBytes (n : ℕ) {w : ℕ} (number : BitVec w) :
    (toLeBytes n number).length = n := by
  simp [toLeBytes]

theorem toLeBytes_inj {n w : ℕ} (hw : w ≤ 8 * n) {a b : BitVec w} :
    toLeBytes n a = toLeBytes n b ↔ a = b := by
  refine ⟨fun h => ?_, fun h => congrArg _ h⟩
  apply BitVec.eq_of_getLsbD_eq
  intro i hi
  have hbyte := List.map_inj_left.mp h (i / 8) (List.mem_range.mpr (by omega))
  have hbits : a.extractLsb' (8 * (i / 8)) 8 = b.extractLsb' (8 * (i / 8)) 8 :=
    congrArg UInt8.toBitVec hbyte
  have hbit := congrArg (fun x => x.getLsbD (i % 8)) hbits
  simp only [BitVec.getLsbD_extractLsb'] at hbit
  have hmod : i % 8 < 8 := Nat.mod_lt _ (by omega)
  have hi' : 8 * (i / 8) + i % 8 = i := Nat.div_add_mod i 8
  rw [hi'] at hbit
  simpa [hmod] using hbit

/-- The number of bytes of a text. -/
def textLength (s : String) : ℕ := (asBytes s).length

/-! ## The kinds without floats -/

/-- The value has a kind that no float is part of. -/
def Value.nonFloat : Value → Bool
  | .cframe _ | .color3 _ | .colorSequence _ | .float32 _ | .float64 _ | .numberRange _ _
  | .numberSequence _ | .optionalCFrame _ | .physicalProperties _ | .ray _ _ | .rect _ _
  | .region3 _ _ | .udim _ | .udim2 _ _ | .vector2 _ | .vector3 _ => false
  | _ => true

/-- The value with its tags in order. -/
def Value.sorted : Value → Value
  | .tags names => .tags (names.mergeSort (· ≤ ·))
  | v => v

mutual

def Variant.nonFloat : Variant → Bool
  | .attributes attributes => attributesNonFloat attributes
  | .value v => v.nonFloat

def attributesNonFloat : List (String × Variant) → Bool
  | [] => true
  | (_, v) :: attributes => v.nonFloat && attributesNonFloat attributes

end

mutual

def Variant.sorted : Variant → Variant
  | .attributes attributes => .attributes (attributesSorted attributes)
  | .value v => .value v.sorted

def attributesSorted : List (String × Variant) → List (String × Variant)
  | [] => []
  | (name, v) :: attributes => (name, v.sorted) :: attributesSorted attributes

end

@[simp] theorem length_attributesSorted (attributes : List (String × Variant)) :
    (attributesSorted attributes).length = attributes.length := by
  induction attributes with
  | nil => rfl
  | cons e attributes ih => simp [attributesSorted, ih]

/-! ## Comparison -/

section Compare

variable [FloatCmp] {v w : Value}

omit [FloatCmp] in
@[simp] theorem Value.nonFloat_sorted (v : Value) : v.sorted.nonFloat = v.nonFloat := by
  cases v <;> rfl

omit [FloatCmp] in
theorem Value.eq_of_sorted (hv : ∀ names, v ≠ .tags names) (h : v.sorted = w.sorted) : v = w := by
  have hself : v.sorted = v := by
    cases v with
    | tags names => exact absurd rfl (hv names)
    | _ => rfl
  cases w with
  | tags names =>
    rw [hself] at h
    exact absurd h (hv _)
  | _ => exact hself.symm.trans h

theorem valueEq_of_sorted (hv : v.nonFloat = true) (h : v.sorted = w.sorted) :
    valueEq v w = some true := by
  by_cases ht : ∃ names, v = .tags names
  · obtain ⟨a, rfl⟩ := ht
    cases w with
    | tags b =>
      have hab : a.mergeSort (· ≤ ·) = b.mergeSort (· ≤ ·) := Value.tags.inj h
      have hlen : a.length = b.length := by
        have hsorted := congrArg List.length hab
        rwa [List.length_mergeSort, List.length_mergeSort] at hsorted
      show (if a.length = b.length then _ else some false) = some true
      rw [if_pos hlen, hab]
      exact congrArg some (beq_self_eq_true _)
    | _ => cases h
  · have hvw : v = w := Value.eq_of_sorted (fun names hnames => ht ⟨names, hnames⟩) h
    rw [← hvw]
    cases v with
    | tags names => exact absurd ⟨names, rfl⟩ ht
    | content content => exact congrArg some (beq_self_eq_true content)
    | _ => first | (cases hv; done) | exact congrArg some (by simp)

omit [FloatCmp] in
theorem sorted_of_tagsEq {a b : List String}
    (h : (if a.length = b.length then some (a.mergeSort (· ≤ ·) == b.mergeSort (· ≤ ·))
      else some false) = some true) : (Value.tags a).sorted = (Value.tags b).sorted := by
  split_ifs at h with hlen
  · exact congrArg Value.tags (beq_iff_eq.mp (Option.some.inj h))
  · cases h

omit [FloatCmp] in
theorem eq_of_fontEq {a b : Font}
    (h : some (a.weight == b.weight && a.style == b.style && a.family == b.family &&
      a.cachedFaceId == b.cachedFaceId) = some true) : a = b := by
  cases a
  cases b
  simp only [Option.some.injEq, Bool.and_eq_true, beq_iff_eq] at h
  obtain ⟨⟨⟨rfl, rfl⟩, rfl⟩, rfl⟩ := h
  rfl

omit [FloatCmp] in
theorem congr_of_beq {α : Type} [BEq α] [LawfulBEq α] {f : α → Value} {a b : α}
    (h : some (a == b) = some true) : (f a).sorted = (f b).sorted := by
  rw [eq_of_beq (Option.some.inj h)]

omit [FloatCmp] in
theorem congr₂_of_beq {α β : Type} [BEq α] [LawfulBEq α] [BEq β] [LawfulBEq β] {f : α → β → Value}
    {a a' : α} {b b' : β} (h : some (a == a' && b == b') = some true) :
    (f a b).sorted = (f a' b').sorted := by
  obtain ⟨ha, hb⟩ := Bool.and_eq_true_iff.mp (Option.some.inj h)
  rw [eq_of_beq ha, eq_of_beq hb]

theorem sorted_of_valueEq (hf : v.nonFloat = true ∨ w.nonFloat = true)
    (h : valueEq v w = some true) : v.sorted = w.sorted := by
  -- values of different kinds are never the same
  cases v
  case optionalCFrame cframe =>
    cases cframe
    all_goals cases w
    all_goals first
      | cases h
      | (rcases hf with hf | hf <;> cases hf)
  case physicalProperties properties =>
    cases properties
    all_goals cases w
    all_goals first
      | cases h
      | (rcases hf with hf | hf <;> cases hf)
  all_goals cases w
  all_goals first
    | cases h
    | (rcases hf with hf | hf <;> cases hf; done)
    | exact congr_of_beq h
    | exact congr₂_of_beq h
    | exact sorted_of_tagsEq h
    | exact congrArg (fun f => (Value.font f).sorted) (eq_of_fontEq h)

theorem valueEq_iff (hf : v.nonFloat = true ∨ w.nonFloat = true) :
    valueEq v w = some true ↔ v.sorted = w.sorted := by
  refine ⟨sorted_of_valueEq hf, fun h => valueEq_of_sorted ?_ h⟩
  rcases hf with hv | hw
  · exact hv
  · rw [← Value.nonFloat_sorted, h, Value.nonFloat_sorted]
    exact hw

mutual

/-- A value without floats is the same as another up to the order of tags. -/
theorem variantEq_iff : ∀ {v w : Variant}, v.nonFloat = true ∨ w.nonFloat = true →
    (variantEq v w = some true ↔ v.sorted = w.sorted)
  | .value v, .value w, hf => by
    simp only [variantEq, Variant.sorted, Variant.value.injEq]
    exact valueEq_iff hf
  | .attributes a, .attributes b, hf => by
    simp only [variantEq, Variant.sorted, Variant.attributes.injEq]
    by_cases hlen : a.length = b.length
    · rw [if_neg (not_not.mpr hlen)]
      exact attributesEq_iff hlen hf
    · rw [if_pos hlen]
      refine ⟨nofun, fun h => absurd ?_ hlen⟩
      rw [← length_attributesSorted a, h, length_attributesSorted]
  | .value _, .attributes _, _ => by simp [variantEq, Variant.sorted]
  | .attributes _, .value _, _ => by simp [variantEq, Variant.sorted]

theorem attributesEq_iff : ∀ {a b : List (String × Variant)}, a.length = b.length →
    attributesNonFloat a = true ∨ attributesNonFloat b = true →
    (attributesEq a b = some true ↔ attributesSorted a = attributesSorted b)
  | [], [], _, _ => by simp [attributesEq]
  | (n, v) :: a, (m, w) :: b, hlen, hf => by
    simp only [attributesNonFloat, Bool.and_eq_true] at hf
    have hvw := variantEq_iff (hf.imp And.left And.left)
    have hab := attributesEq_iff (Nat.succ.inj hlen) (hf.imp And.right And.right)
    unfold attributesEq attributesSorted
    by_cases hname : n = m
    · rw [if_pos hname, hname, List.cons.injEq, Prod.mk.injEq, ← hvw, ← hab]
      cases variantEq v w with
      | none => simp
      | some same => cases same <;> simp
    · simp [hname]

end

end Compare

/-! ## Bytes that tell -/

theorem length_flatMap_asBytes {a b : List String} (h : a.map textLength = b.map textLength) :
    (a.flatMap asBytes).length = (b.flatMap asBytes).length := by
  rw [List.length_flatMap, List.length_flatMap]
  exact congrArg List.sum h

/-- Texts of the same lengths are told apart by their bytes. -/
theorem eq_of_flatMap_asBytes {a b : List String} (h : a.map textLength = b.map textLength)
    (hbytes : a.flatMap asBytes = b.flatMap asBytes) : a = b := by
  induction a generalizing b with
  | nil =>
    cases b with
    | nil => rfl
    | cons t b => cases h
  | cons s a ih =>
    cases b with
    | nil => cases h
    | cons t b =>
      obtain ⟨hst, hab⟩ := List.cons.inj h
      rw [List.flatMap_cons, List.flatMap_cons] at hbytes
      obtain ⟨hs, hrest⟩ := List.append_inj hbytes hst
      rw [asBytes_inj.mp hs, ih hab hrest]

/-- What two equal byte lists of values say: the lengths are the same, and they tell them apart. -/
structure Told (a b : List UInt8) (P : Prop) : Prop where
  length : a.length = b.length
  eq : a = b → P

/-- What is fed one after the other can be told one after the other. -/
theorem Told.append {a b c d : List UInt8} {P Q : Prop} (h : Told a b P) (h' : Told c d Q) :
    Told (a ++ c) (b ++ d) (P ∧ Q) where
  length := by rw [List.length_append, List.length_append, h.length, h'.length]
  eq heq := by
    obtain ⟨hab, hcd⟩ := List.append_inj heq h.length
    exact ⟨h.eq hab, h'.eq hcd⟩

theorem Told.mono {a b : List UInt8} {P Q : Prop} (h : Told a b P) (hPQ : P → Q) : Told a b Q :=
  ⟨h.length, fun heq => hPQ (h.eq heq)⟩

theorem told_text {s t : String} (h : textLength s = textLength t) :
    Told (asBytes s) (asBytes t) (s = t) := ⟨h, asBytes_inj.mp⟩

theorem told_number {n w : ℕ} (hw : w ≤ 8 * n) (a b : BitVec w) :
    Told (toLeBytes n a) (toLeBytes n b) (a = b) := ⟨by simp, (toLeBytes_inj hw).mp⟩

theorem told_byte (a b : UInt8) : Told [a] [b] (a = b) := ⟨rfl, List.singleton_inj.mp⟩

theorem told_cons {a b : List UInt8} {P : Prop} (h : Told a b P) (x : UInt8) :
    Told (x :: a) (x :: b) P := ⟨by simp [h.length], fun heq => h.eq (List.cons.inj heq).2⟩

theorem told_vector3int16 (a b : Vector3int16) :
    Told (vector3int16Bytes a) (vector3int16Bytes b) (a = b) := by
  refine (((told_number (by omega) _ _).append (told_number (by omega) _ _)).append
    (told_number (by omega) _ _)).mono ?_
  rintro ⟨⟨hx, hy⟩, hz⟩
  obtain ⟨x, y, z⟩ := a
  obtain ⟨x', y', z'⟩ := b
  obtain rfl : x = x' := Int16.toBitVec_inj.mp hx
  obtain rfl : y = y' := Int16.toBitVec_inj.mp hy
  obtain rfl : z = z' := Int16.toBitVec_inj.mp hz
  rfl

theorem told_font {a b : Font} (hfamily : textLength a.family = textLength b.family)
    (hcache : a.cachedFaceId.map textLength = b.cachedFaceId.map textLength) :
    Told (fontBytes a) (fontBytes b) (a = b) := by
  obtain ⟨family, weight, style, cached⟩ := a
  obtain ⟨family', weight', style', cached'⟩ := b
  have hstart := ((told_number (n := 2) (by omega) weight.toBitVec weight'.toBitVec).append
    (told_number (n := 1) (by omega) style.toBitVec style'.toBitVec)).append (told_text hfamily)
  have hfields : weight.toBitVec = weight'.toBitVec → style.toBitVec = style'.toBitVec →
      weight = weight' ∧ style = style' :=
    fun hw hs => ⟨UInt16.toBitVec_inj.mp hw, UInt8.toBitVec_inj.mp hs⟩
  cases cached with
  | none =>
    cases cached' with
    | none =>
      refine (hstart.append (⟨rfl, fun _ => trivial⟩ : Told [0] [0] True)).mono ?_
      rintro ⟨⟨⟨hw, hs⟩, hf⟩, -⟩
      obtain ⟨rfl, rfl⟩ := hfields hw hs
      exact congrArg (fun family => Font.mk family weight style none) hf
    | some cache => cases hcache
  | some cache =>
    cases cached' with
    | none => cases hcache
    | some cache' =>
      refine (hstart.append (told_cons (told_text (Option.some.inj hcache)) 1)).mono ?_
      rintro ⟨⟨⟨hw, hs⟩, hf⟩, rfl⟩
      obtain ⟨rfl, rfl⟩ := hfields hw hs
      exact congrArg (fun family => Font.mk family weight style (some cache)) hf

/-! ## Values cut alike -/

/-- Two values of one kind whose bytes are cut at the same places, and which are equal where the
bytes do not tell. -/
inductive Value.CutAlike [Hashing] : Value → Value → Prop
  | axes (a b) : CutAlike (.axes a) (.axes b)
  | binaryString {a b} (h : a.length = b.length) : CutAlike (.binaryString a) (.binaryString b)
  | bool (a b) : CutAlike (.bool a) (.bool b)
  | brickColor (a b) : CutAlike (.brickColor a) (.brickColor b)
  | color3uint8 (a b) : CutAlike (.color3uint8 a) (.color3uint8 b)
  | contentNone : CutAlike (.content .none) (.content .none)
  | contentUri {s t} (h : textLength s = textLength t) :
    CutAlike (.content (.uri s)) (.content (.uri t))
  | contentObject {r r'} (h : textLength (Hashing.refText r) = textLength (Hashing.refText r'))
    (htext : Hashing.refText r = Hashing.refText r' → r = r') :
    CutAlike (.content (.object r)) (.content (.object r'))
  | contentId {s t} (h : textLength s = textLength t) : CutAlike (.contentId s) (.contentId t)
  | enum (a b) : CutAlike (.enum a) (.enum b)
  | enumItem {s t} (a b) (h : textLength s = textLength t) :
    CutAlike (.enumItem s a) (.enumItem t b)
  | faces (a b) : CutAlike (.faces a) (.faces b)
  | font {a b : Font} (hfamily : textLength a.family = textLength b.family)
    (hcache : a.cachedFaceId.map textLength = b.cachedFaceId.map textLength) :
    CutAlike (.font a) (.font b)
  | int32 (a b) : CutAlike (.int32 a) (.int32 b)
  | int64 (a b) : CutAlike (.int64 a) (.int64 b)
  | materialColors {a b} (h : a.length = b.length) :
    CutAlike (.materialColors a) (.materialColors b)
  | netAssetRef {a b} (h : Hashing.contentHash a = Hashing.contentHash b → a = b) :
    CutAlike (.netAssetRef a) (.netAssetRef b)
  | ref {r r'} (h : textLength (Hashing.refText r) = textLength (Hashing.refText r'))
    (htext : Hashing.refText r = Hashing.refText r' → r = r') : CutAlike (.ref r) (.ref r')
  | region3int16 (a a' b b') : CutAlike (.region3int16 a a') (.region3int16 b b')
  | securityCapabilities (a b) : CutAlike (.securityCapabilities a) (.securityCapabilities b)
  | sharedString {a b} (h : Hashing.contentHash a = Hashing.contentHash b → a = b) :
    CutAlike (.sharedString a) (.sharedString b)
  | string {s t} (h : textLength s = textLength t) : CutAlike (.string s) (.string t)
  | tags {a b : List String}
    (h : (a.mergeSort (· ≤ ·)).map textLength = (b.mergeSort (· ≤ ·)).map textLength) :
    CutAlike (.tags a) (.tags b)
  | uniqueId (a) : CutAlike (.uniqueId a) (.uniqueId a)
  | vector2int16 (a b) : CutAlike (.vector2int16 a) (.vector2int16 b)
  | vector3int16 (a b) : CutAlike (.vector3int16 a) (.vector3int16 b)

mutual

/-- The same for variants: attributes one by one, with names of the same length. -/
def Variant.CutAlike [Hashing] : Variant → Variant → Prop
  | .attributes a, .attributes b => EntriesCutAlike a b
  | .value v, .value w => v.CutAlike w
  | _, _ => False

/-- Named values that are cut alike one by one. -/
def EntriesCutAlike [Hashing] : List (String × Variant) → List (String × Variant) → Prop
  | [], [] => True
  | (n, v) :: a, (m, w) :: b => textLength n = textLength m ∧ v.CutAlike w ∧ EntriesCutAlike a b
  | _, _ => False

end

section CutAlike

variable [Hashing] {v w : Value}

theorem cutAlike_of_sorted (hv : v.nonFloat = true) (h : v.sorted = w.sorted) : v.CutAlike w := by
  by_cases ht : ∃ names, v = .tags names
  · obtain ⟨a, rfl⟩ := ht
    cases w with
    | tags b =>
      have hab : a.mergeSort (· ≤ ·) = b.mergeSort (· ≤ ·) := Value.tags.inj h
      exact Value.CutAlike.tags (by rw [hab])
    | _ => cases h
  · have hvw : v = w := Value.eq_of_sorted (fun names hnames => ht ⟨names, hnames⟩) h
    rw [← hvw]
    cases v with
    | tags names => exact absurd ⟨names, rfl⟩ ht
    | content content =>
      cases content with
      | none => exact .contentNone
      | uri uri => exact .contentUri rfl
      | object referent => exact .contentObject rfl fun _ => rfl
    | _ => first | (cases hv; done) | constructor <;> first | rfl | exact fun _ => rfl

mutual

/-- Values that are the same up to the order of tags are cut alike. -/
theorem Variant.cutAlike_of_sorted : ∀ {v w : Variant}, v.nonFloat = true →
    v.sorted = w.sorted → v.CutAlike w
  | .value v, .value w, hv, h => by
    simp only [Variant.sorted, Variant.value.injEq] at h
    exact Roxo.cutAlike_of_sorted hv h
  | .attributes a, .attributes b, hv, h => by
    simp only [Variant.sorted, Variant.attributes.injEq] at h
    exact entriesCutAlike_of_sorted hv h
  | .value _, .attributes _, _, h => by simp [Variant.sorted] at h
  | .attributes _, .value _, _, h => by simp [Variant.sorted] at h

theorem entriesCutAlike_of_sorted : ∀ {a b : List (String × Variant)},
    attributesNonFloat a = true → attributesSorted a = attributesSorted b → EntriesCutAlike a b
  | [], [], _, _ => trivial
  | (n, v) :: a, (m, w) :: b, hv, h => by
    simp only [attributesNonFloat, Bool.and_eq_true] at hv
    simp only [attributesSorted, List.cons.injEq, Prod.mk.injEq] at h
    obtain ⟨⟨rfl, hvw⟩, hab⟩ := h
    exact ⟨rfl, Variant.cutAlike_of_sorted hv.1 hvw, entriesCutAlike_of_sorted hv.2 hab⟩
  | [], _ :: _, _, h => by simp [attributesSorted] at h
  | _ :: _, [], _, h => by simp [attributesSorted] at h

end

/-- The bytes of values that are cut alike have the same length and tell the values apart. -/
theorem Value.CutAlike.told (h : v.CutAlike w) :
    ∃ a b, hashValue v = some a ∧ hashValue w = some b ∧ Told a b (v.sorted = w.sorted) := by
  cases h with
  | axes a b => exact ⟨_, _, rfl, rfl, (told_byte a b).mono (congrArg _)⟩
  | binaryString h => exact ⟨_, _, rfl, rfl, h, congrArg _⟩
  | bool a b =>
    refine ⟨_, _, rfl, rfl, rfl, fun h => ?_⟩
    cases a <;> cases b <;> first | rfl | cases h
  | brickColor a b =>
    exact ⟨_, _, rfl, rfl, (told_number (by omega) _ _).mono fun h => by
      rw [UInt16.toBitVec_inj.mp h]⟩
  | color3uint8 c c' =>
    refine ⟨_, _, rfl, rfl, rfl, fun h => ?_⟩
    obtain ⟨r, g, b⟩ := c
    obtain ⟨r', g', b'⟩ := c'
    simp only [List.cons.injEq, and_true] at h
    obtain ⟨rfl, rfl, rfl⟩ := h
    rfl
  | contentNone => exact ⟨_, _, rfl, rfl, rfl, fun _ => rfl⟩
  | contentUri h =>
    exact ⟨_, _, rfl, rfl, (told_cons (told_text h) 1).mono fun h => by rw [h]⟩
  | contentObject h htext =>
    exact ⟨_, _, rfl, rfl, (told_cons (told_text h) 2).mono fun h => by rw [htext h]⟩
  | contentId h => exact ⟨_, _, rfl, rfl, (told_text h).mono (congrArg _)⟩
  | enum a b =>
    exact ⟨_, _, rfl, rfl, (told_number (by omega) _ _).mono fun h => by
      rw [UInt32.toBitVec_inj.mp h]⟩
  | enumItem a b h =>
    exact ⟨_, _, rfl, rfl, ((told_text h).append (told_number (by omega) _ _)).mono fun h => by
      rw [h.1, UInt32.toBitVec_inj.mp h.2]⟩
  | faces a b => exact ⟨_, _, rfl, rfl, (told_byte a b).mono (congrArg _)⟩
  | font hfamily hcache =>
    exact ⟨_, _, rfl, rfl, (told_font hfamily hcache).mono fun h => by rw [h]⟩
  | int32 a b =>
    exact ⟨_, _, rfl, rfl, (told_number (by omega) _ _).mono fun h => by
      rw [Int32.toBitVec_inj.mp h]⟩
  | int64 a b =>
    exact ⟨_, _, rfl, rfl, (told_number (by omega) _ _).mono fun h => by
      rw [Int64.toBitVec_inj.mp h]⟩
  | materialColors h => exact ⟨_, _, rfl, rfl, h, congrArg _⟩
  | netAssetRef h =>
    exact ⟨_, _, rfl, rfl, by rw [Hashing.length_contentHash, Hashing.length_contentHash],
      fun heq => by rw [h heq]⟩
  | ref h htext => exact ⟨_, _, rfl, rfl, (told_text h).mono fun h => by rw [htext h]⟩
  | region3int16 a a' b b' =>
    exact ⟨_, _, rfl, rfl, ((told_vector3int16 _ _).append (told_vector3int16 _ _)).mono fun h => by
      rw [h.1, h.2]⟩
  | securityCapabilities a b =>
    exact ⟨_, _, rfl, rfl, (told_number (by omega) _ _).mono fun h => by
      rw [UInt64.toBitVec_inj.mp h]⟩
  | sharedString h =>
    exact ⟨_, _, rfl, rfl, by rw [Hashing.length_contentHash, Hashing.length_contentHash],
      fun heq => by rw [h heq]⟩
  | string h => exact ⟨_, _, rfl, rfl, (told_text h).mono (congrArg _)⟩
  | tags h =>
    exact ⟨_, _, rfl, rfl, length_flatMap_asBytes h,
      fun heq => congrArg Value.tags (eq_of_flatMap_asBytes h heq)⟩
  | uniqueId a => exact ⟨_, _, rfl, rfl, rfl, fun _ => rfl⟩
  | vector2int16 a b =>
    refine ⟨_, _, rfl, rfl, ((told_number (by omega) _ _).append
      (told_number (by omega) _ _)).mono fun h => ?_⟩
    obtain ⟨x, y⟩ := a
    obtain ⟨x', y'⟩ := b
    obtain rfl : x = x' := Int16.toBitVec_inj.mp h.1
    obtain rfl : y = y' := Int16.toBitVec_inj.mp h.2
    rfl
  | vector3int16 a b => exact ⟨_, _, rfl, rfl, (told_vector3int16 a b).mono (congrArg _)⟩

mutual

/-- The same for variants. -/
theorem Variant.CutAlike.told : ∀ {v w : Variant}, v.CutAlike w →
    ∃ a b, hashVariant v = some a ∧ hashVariant w = some b ∧ Told a b (v.sorted = w.sorted)
  | .value v, .value w, h => by
    obtain ⟨a, b, ha, hb, ht⟩ := Value.CutAlike.told h
    exact ⟨a, b, ha, hb, ht.mono fun h => by rw [Variant.sorted, Variant.sorted, h]⟩
  | .attributes a, .attributes b, h => by
    obtain ⟨x, y, hx, hy, ht⟩ := EntriesCutAlike.told h
    exact ⟨x, y, hx, hy, ht.mono fun h => by rw [Variant.sorted, Variant.sorted, h]⟩
  | .value _, .attributes _, h => h.elim
  | .attributes _, .value _, h => h.elim

theorem EntriesCutAlike.told : ∀ {a b : List (String × Variant)}, EntriesCutAlike a b →
    ∃ x y, hashAttributes a = some x ∧ hashAttributes b = some y ∧
      Told x y (attributesSorted a = attributesSorted b)
  | [], [], _ => ⟨[], [], rfl, rfl, rfl, fun _ => rfl⟩
  | (n, v) :: a, (m, w) :: b, h => by
    obtain ⟨x, y, hx, hy, hvw⟩ := Variant.CutAlike.told h.2.1
    obtain ⟨x', y', hx', hy', hab⟩ := EntriesCutAlike.told h.2.2
    refine ⟨_, _, by unfold hashAttributes; rw [hx, hx']; rfl,
      by unfold hashAttributes; rw [hy, hy']; rfl,
      (((told_text h.1).append hvw).append hab).mono ?_⟩
    rintro ⟨⟨rfl, hv⟩, hrest⟩
    rw [attributesSorted, attributesSorted, hv, hrest]
  | [], _ :: _, h => h.elim
  | _ :: _, [], h => h.elim

end

end CutAlike

end Roxo
