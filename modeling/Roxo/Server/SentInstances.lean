import Roxo.Server.Interface

/-!
# What a message lists

The additions of a message are the instances of the subtrees of the added ids, each as it stands in
the tree when the message is made.
-/

namespace Roxo

open AssocMap WeakDom RojoTree Forest Interface

variable {D : Type} [WeakDom D] [LawfulWeakDom D] {tree : RojoTree D}

/-- The loop lists the instances that it visits. -/
theorem RojoTree.descendantsLoop_spec {n : ℕ} {queue : List Ref} {l : List InstanceWithMeta}
    (h : descendantsLoop n tree queue = some l) :
    l.map (fun x => x.inst.referent) = bfs (kids tree.inner) n queue ∧
      ∀ x ∈ l, getByRef tree.inner x.inst.referent = some x.inst := by
  induction n generalizing queue l with
  | zero =>
    cases queue with
    | nil =>
      cases h
      exact ⟨rfl, fun x hx => absurd hx List.not_mem_nil⟩
    | cons id queue => cases h
  | succ n ih =>
    cases queue with
    | nil =>
      cases h
      exact ⟨rfl, fun x hx => absurd hx List.not_mem_nil⟩
    | cons id queue =>
      unfold descendantsLoop at h
      obtain ⟨inst, hinst, h⟩ := Option.bind_eq_some_iff.mp h
      obtain ⟨metadata, -, h⟩ := Option.bind_eq_some_iff.mp h
      obtain ⟨rest, hrest, h⟩ := Option.bind_eq_some_iff.mp h
      obtain rfl := Option.some.inj h
      obtain ⟨hids, hall⟩ := ih hrest
      have hid := LawfulWeakDom.referent_eq _ hinst
      refine ⟨?_, fun x hx => ?_⟩
      · rw [List.map_cons, hids, bfs, kids_eq hinst, hid]
      · rcases List.mem_cons.mp hx with rfl | hx
        · exact hid.symm ▸ hinst
        · exact hall x hx

namespace Interface

omit [WeakDom D] [LawfulWeakDom D] in
/-- What the last of several instances with one id leaves in the map. -/
theorem lookup_foldl_insert (l : List InstanceWithMeta) (added : Map Ref Interface.Instance) (y : Ref) :
    (∃ x ∈ l, x.inst.referent = y ∧
      (l.foldl (fun added x => added.insert x.inst.referent (.fromRojoInstance x)) added).lookup y =
        some (.fromRojoInstance x)) ∨
    (∀ x ∈ l, x.inst.referent ≠ y) ∧
      (l.foldl (fun added x => added.insert x.inst.referent (.fromRojoInstance x)) added).lookup y =
        added.lookup y := by
  induction l generalizing added with
  | nil => exact .inr ⟨fun x hx => absurd hx List.not_mem_nil, rfl⟩
  | cons x l ih =>
    rw [List.foldl_cons]
    rcases ih (added.insert x.inst.referent (.fromRojoInstance x)) with ⟨z, hz, hid, hlookup⟩ |
      ⟨hnone, hlookup⟩
    · exact .inl ⟨z, List.mem_cons_of_mem _ hz, hid, hlookup⟩
    · rw [hlookup, lookup_insert_eq]
      by_cases hx : y = x.inst.referent
      · exact .inl ⟨x, List.mem_cons_self, hx.symm, if_pos hx⟩
      · refine .inr ⟨fun z hz => ?_, if_neg hx⟩
        rcases List.mem_cons.mp hz with rfl | hz
        · exact Ne.symm hx
        · exact hnone z hz

/-- The instances below an id, each as it is in the tree, and nothing else. -/
theorem lookup_sendInstance (h : Inv tree) {added added' : Map Ref Interface.Instance} {id : Ref}
    (hs : sendInstance tree added id = some added') (y : Ref) :
    (Desc (kids tree.inner) id y → ∃ x, getByRef tree.inner y = some x.inst ∧
      added'.lookup y = some (.fromRojoInstance x)) ∧
    (¬ Desc (kids tree.inner) id y → added'.lookup y = added.lookup y) := by
  have hpresent : Present tree id := (sendInstance_isSome h).mp (Option.isSome_of_eq_some hs)
  unfold sendInstance at hs
  obtain ⟨inst, hinst, hs⟩ := Option.bind_eq_some_iff.mp hs
  obtain ⟨l, hl, hs⟩ := Option.bind_eq_some_iff.mp hs
  obtain rfl := Option.some.inj hs
  obtain ⟨i, hi⟩ := Option.isSome_iff_exists.mp hpresent
  obtain ⟨hids, hall⟩ := descendantsLoop_spec hl
  have hf := LawfulWeakDom.forest tree.inner
  have hmem : ∀ z, z ∈ l.map (fun x => x.inst.referent) ↔ Desc (kids tree.inner) id z := by
    intro z
    rw [hids, mem_bfs_iff]
    · simp
    · refine hf.bfs_length_lt (antichain_singleton id) (fun a ha => ?_) (fun a _ b hb => ?_)
        (Nat.lt_succ_self _)
      · rw [List.mem_singleton.mp ha, ← AList.mem_keys, h.keys]
        exact hpresent
      · obtain ⟨j, hj, -⟩ := LawfulWeakDom.child_present _ hb
        rw [← AList.mem_keys, h.keys, hj]
        rfl
  have hself : inst.inst.referent = id ∧ getByRef tree.inner id = some inst.inst := by
    obtain ⟨m, hm⟩ := h.metadata_of_present hi
    rw [getInstance_eq hi hm] at hinst
    obtain rfl := Option.some.inj hinst
    exact ⟨LawfulWeakDom.referent_eq _ hi, hi⟩
  rcases lookup_foldl_insert l (added.insert id (.fromRojoInstance inst)) y with
    ⟨x, hx, rfl, hlookup⟩ | ⟨hnone, hlookup⟩
  · refine ⟨fun _ => ⟨x, hall x hx, hlookup⟩, fun hnot => absurd ?_ hnot⟩
    exact (hmem _).mp (List.mem_map_of_mem hx)
  · have hnot : ¬ Desc (kids tree.inner) id y := by
      rw [← hmem]
      intro hy
      obtain ⟨x, hx, hxy⟩ := List.mem_map.mp hy
      exact hnone x hx hxy
    refine ⟨fun hd => absurd hd hnot, fun _ => ?_⟩
    rw [hlookup, lookup_insert_eq, if_neg]
    rintro rfl
    exact hnot .refl

/-- **What a message adds**: the instances of the subtrees of the added ids. -/
theorem lookup_fromPatchUpdate (h : Inv tree) {patch : AppliedPatchSet} {message : SubscribeMessage}
    (hm : SubscribeMessage.fromPatchUpdate tree patch = some message) :
    message.removed = patch.removed ∧ message.updated = patch.updated.map .fromPatchUpdate ∧
    ∀ y, ((∃ top ∈ patch.added, Desc (kids tree.inner) top y) →
        ∃ x, getByRef tree.inner y = some x.inst ∧
          message.added.lookup y = some (.fromRojoInstance x)) ∧
      ((∀ top ∈ patch.added, ¬ Desc (kids tree.inner) top y) → message.added.lookup y = none) := by
  unfold SubscribeMessage.fromPatchUpdate at hm
  obtain ⟨added, hadded, hm⟩ := Option.bind_eq_some_iff.mp hm
  obtain rfl := Option.some.inj hm
  refine ⟨rfl, rfl, fun y => ?_⟩
  have hloop : ∀ (l : List Ref) (start : Map Ref Interface.Instance),
      l.foldlM (sendInstance tree) start = some added →
      ((∃ top ∈ l, Desc (kids tree.inner) top y) → ∃ x, getByRef tree.inner y = some x.inst ∧
          added.lookup y = some (.fromRojoInstance x)) ∧
        ((∀ top ∈ l, ¬ Desc (kids tree.inner) top y) → added.lookup y = start.lookup y) := by
    intro l
    induction l with
    | nil =>
      intro start hrun
      obtain rfl := Option.some.inj hrun
      exact ⟨fun ⟨top, htop, _⟩ => absurd htop List.not_mem_nil, fun _ => rfl⟩
    | cons top l ih =>
      intro start hrun
      rw [List.foldlM_cons] at hrun
      obtain ⟨next, hnext, hrun⟩ := Option.bind_eq_some_iff.mp hrun
      obtain ⟨hbelow, hother⟩ := ih next hrun
      obtain ⟨hself, hkeep⟩ := lookup_sendInstance h hnext y
      by_cases hl : ∃ top' ∈ l, Desc (kids tree.inner) top' y
      · refine ⟨fun _ => hbelow hl, fun hnone => ?_⟩
        obtain ⟨top', htop', hd⟩ := hl
        exact absurd hd (hnone top' (List.mem_cons_of_mem _ htop'))
      · have hsame := hother fun top' htop' hd => hl ⟨top', htop', hd⟩
        refine ⟨?_, fun hnone => ?_⟩
        · rintro ⟨top', htop', hd⟩
          rcases List.mem_cons.mp htop' with rfl | htop'
          · obtain ⟨x, hx, hlookup⟩ := hself hd
            exact ⟨x, hx, hsame.trans hlookup⟩
          · exact absurd ⟨top', htop', hd⟩ hl
        · rw [hsame, hkeep (hnone top List.mem_cons_self)]
  obtain ⟨hsome, hnone⟩ := hloop patch.added ∅ hadded
  exact ⟨hsome, fun hall => (hnone hall).trans (AList.lookup_empty y)⟩

end Interface

end Roxo
