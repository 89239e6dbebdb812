import Mathlib.Order.WellFounded
import Mathlib.Tactic.Common

/-!
# Recursion with room for a number of nested calls

A recursive function is given by a step that takes the function to call as an argument, and
`run n` is the one whose calls nest at most `n` deep: where the room runs out it fails with
`full`. `Makes` says which calls a function makes with what it is given, one after the other up to
the first that fails. A step of which this is known has enough room for an argument exactly if no
chain of calls goes on from it for ever (`exists_run_ne_full_iff`).
-/

namespace BoundedCalls

variable {α β γ δ ε : Type} {full : ε}

/-- `recur'` comes to what `recur` comes to, wherever that has the room. -/
def Extends (full : ε) (recur recur' : α → Except ε β) : Prop :=
  ∀ a, recur a ≠ .error full → recur' a = recur a

/-- What is called behind a result, if it is one. -/
def after (result : Except ε γ) (next : γ → List α) : List α :=
  match result with
  | .ok c => next c
  | .error _ => []

/-! ## The calls of a function -/

/-- Of what may depend on a function, the calls that it makes of it. It runs out of room with one of
its calls only, and more room leaves what has had enough as it is. -/
structure Makes (full : ε) (value : (α → Except ε β) → Except ε γ)
    (calls : (α → Except ε β) → List α) : Prop where
  eq_full_iff : ∀ recur, value recur = .error full ↔ ∃ a ∈ calls recur, recur a = .error full
  eq_of_extends : ∀ {recur recur'}, Extends full recur recur' → value recur ≠ .error full →
    value recur' = value recur ∧ calls recur' = calls recur
  subset : ∀ {recur recur'}, Extends full recur recur' → calls recur ⊆ calls recur'

namespace Makes

theorem const {x : Except ε γ} (h : x ≠ .error full) :
    @Makes α β γ ε full (fun _ => x) (fun _ => []) where
  eq_full_iff _ := iff_of_false h fun ⟨_, ha, _⟩ => absurd ha List.not_mem_nil
  eq_of_extends _ _ := ⟨rfl, rfl⟩
  subset _ := List.Subset.refl _

theorem call (a : α) : Makes full (fun recur : α → Except ε β => recur a) fun _ => [a] where
  eq_full_iff recur := by simp
  eq_of_extends h hvalue := ⟨h a hvalue, rfl⟩
  subset _ := List.Subset.refl _

variable {value : (α → Except ε β) → Except ε γ} {calls : (α → Except ε β) → List α}

/-- One function after another. -/
theorem bind {value' : (α → Except ε β) → γ → Except ε δ} {calls' : (α → Except ε β) → γ → List α}
    (h : Makes full value calls)
    (h' : ∀ c, Makes full (fun recur => value' recur c) fun recur => calls' recur c) :
    Makes full (fun recur => value recur >>= value' recur)
      fun recur => calls recur ++ after (value recur) (calls' recur) where
  eq_full_iff recur := by
    have hfull := h.eq_full_iff recur
    cases hvalue : value recur with
    | error e =>
      rw [hvalue, Except.error.injEq] at hfull
      simp only [after, List.append_nil]
      rw [← hfull]
      exact Except.error.injEq e full ▸ Iff.rfl
    | ok c =>
      -- the first function has not run out of room, so no call of it has
      have hnone : ¬∃ a ∈ calls recur, recur a = .error full := by
        rw [← hfull, hvalue]
        exact nofun
      simp only [after, List.mem_append]
      refine ((h' c).eq_full_iff recur).trans ⟨fun ⟨a, ha, hover⟩ => ⟨a, .inr ha, hover⟩, ?_⟩
      rintro ⟨a, ha | ha, hover⟩
      · exact absurd ⟨a, ha, hover⟩ hnone
      · exact ⟨a, ha, hover⟩
  eq_of_extends {recur recur'} hext hfull := by
    cases hvalue : value recur with
    | error e =>
      rw [hvalue] at hfull
      have hne : e ≠ full := fun he => hfull (congrArg Except.error he)
      obtain ⟨heq, hcalls⟩ :=
        h.eq_of_extends hext (hvalue ▸ fun he => hne (Except.error.inj he))
      rw [heq, hvalue, hcalls]
      exact ⟨rfl, rfl⟩
    | ok c =>
      rw [hvalue] at hfull
      obtain ⟨heq, hcalls⟩ := h.eq_of_extends hext (hvalue ▸ nofun)
      obtain ⟨heq', hcalls'⟩ := (h' c).eq_of_extends hext hfull
      rw [heq, hvalue, hcalls]
      exact ⟨heq', congrArg (calls recur ++ ·) hcalls'⟩
  subset {recur recur'} hext := by
    refine List.append_subset.mpr ⟨?_, ?_⟩
    · exact fun a ha => List.mem_append_left _ (h.subset hext ha)
    · cases hvalue : value recur with
      | error e => exact List.nil_subset _
      | ok c =>
        obtain ⟨heq, -⟩ := h.eq_of_extends hext (hvalue ▸ nofun)
        rw [heq, hvalue]
        exact fun a ha => List.mem_append_right _ ((h' c).subset hext ha)

/-- What follows without any calls. -/
theorem bind_const {next : γ → Except ε δ} (h : Makes full value calls)
    (hnext : ∀ c, next c ≠ .error full) : Makes full (fun recur => value recur >>= next) calls := by
  have hbind := @bind _ _ _ _ _ full _ _ (fun _ => next) (fun _ _ => []) h
    fun c => Makes.const (hnext c)
  have hcalls : (fun recur => calls recur ++ after (value recur) fun _ => []) = calls := by
    funext recur
    cases value recur <;> exact List.append_nil _
  rw [hcalls] at hbind
  exact hbind

/-- What goes before without any calls. -/
theorem const_bind {x : Except ε δ} {value : (α → Except ε β) → δ → Except ε γ}
    {calls : (α → Except ε β) → δ → List α} (hx : x ≠ .error full)
    (h : ∀ d, x = .ok d → Makes full (fun recur => value recur d) fun recur => calls recur d) :
    Makes full (fun recur => x >>= value recur) fun recur => after x (calls recur) := by
  cases x with
  | error e => exact Makes.const fun he => hx (congrArg Except.error (Except.error.inj he))
  | ok d => exact h d rfl

end Makes

/-! ## Room for the calls -/

variable {step : (α → Except ε β) → α → Except ε β} {calls : (α → Except ε β) → α → List α}
  {a b : α}

/-- The function whose calls nest at most `n` deep. -/
def run (full : ε) (step : (α → Except ε β) → α → Except ε β) : ℕ → α → Except ε β
  | 0 => fun _ => .error full
  | n + 1 => step (run full step n)

/-- A chain of arguments from `a`, each related to the one before, goes on for ever. -/
def Endless (leads : α → α → Prop) (a : α) : Prop :=
  ∃ chain : ℕ → α, chain 0 = a ∧ ∀ n, leads (chain n) (chain (n + 1))

theorem acc_iff_not_endless {leads : α → α → Prop} :
    Acc (fun b a => leads a b) a ↔ ¬Endless leads a := by
  rw [iff_not_comm, not_acc_iff_exists_descending_chain]
  rfl

/-- With some room the function gets as far as calling itself with `b`. -/
def Leads (full : ε) (step : (α → Except ε β) → α → Except ε β)
    (calls : (α → Except ε β) → α → List α) (a b : α) : Prop :=
  ∃ n, b ∈ calls (run full step n) a

section Room

variable (h : ∀ a, Makes full (fun recur => step recur a) fun recur => calls recur a)
include h

theorem extends_succ (n : ℕ) : Extends full (run full step n) (run full step (n + 1)) := by
  induction n with
  | zero => exact fun a hne => absurd rfl hne
  | succ n ih => exact fun a hne => ((h a).eq_of_extends ih hne).1

theorem extends_of_le {n m : ℕ} (hle : n ≤ m) :
    Extends full (run full step n) (run full step m) := by
  induction m, hle using Nat.le_induction with
  | base => exact fun _ _ => rfl
  | succ m hle ih =>
    intro a hne
    rw [extends_succ h m a (by rwa [ih a hne]), ih a hne]

/-- What has enough room calls nothing else with more of it, and its calls have enough. -/
theorem ne_full_of_leads {n : ℕ} (hne : run full step (n + 1) a ≠ .error full)
    (hleads : Leads full step calls a b) : run full step n b ≠ .error full := by
  obtain ⟨m, hm⟩ := hleads
  have hmem : b ∈ calls (run full step n) a := by
    rcases le_total m n with hle | hle
    · exact (h a).subset (extends_of_le h hle) hm
    · rw [← ((h a).eq_of_extends (extends_of_le h hle) hne).2]
      exact hm
  exact fun hfull => hne (((h a).eq_full_iff _).mpr ⟨b, hmem, hfull⟩)

theorem not_endless_of_run_ne_full {n : ℕ} (hne : run full step n a ≠ .error full) :
    ¬Endless (Leads full step calls) a := by
  induction n generalizing a with
  | zero => exact absurd rfl hne
  | succ n ih =>
    rintro ⟨chain, rfl, hchain⟩
    exact ih (ne_full_of_leads h hne (hchain 0))
      ⟨fun k => chain (k + 1), rfl, fun k => hchain (k + 1)⟩

/-- All the calls that an argument leads to are among those of some list. -/
theorem exists_list_leads (a : α) : ∃ l : List α, ∀ b, Leads full step calls a b → b ∈ l := by
  classical
  -- what the function comes to if it ever has enough room
  let limit : α → Except ε β := fun b =>
    if hroom : ∃ n, run full step n b ≠ .error full then run full step hroom.choose b
    else .error full
  have hlimit : ∀ n, Extends full (run full step n) limit := by
    intro n b hne
    have hroom : ∃ n, run full step n b ≠ .error full := ⟨n, hne⟩
    have hchosen : limit b = run full step hroom.choose b := dif_pos hroom
    rw [hchosen]
    rcases le_total n hroom.choose with hle | hle
    · exact extends_of_le h hle b hne
    · exact (extends_of_le h hle b hroom.choose_spec).symm
  exact ⟨calls limit a, fun b ⟨n, hb⟩ => (h a).subset (hlimit n) hb⟩

omit h in
/-- Finitely many arguments that have enough room have it together. -/
theorem exists_forall_of_forall_exists {P : ℕ → α → Prop} {l : List α}
    (h : ∀ b ∈ l, ∃ n, ∀ m, n ≤ m → P m b) : ∃ n, ∀ m, n ≤ m → ∀ b ∈ l, P m b := by
  induction l with
  | nil => exact ⟨0, fun _ _ _ hb => absurd hb List.not_mem_nil⟩
  | cons b l ih =>
    obtain ⟨n, hn⟩ := ih fun b hb => h b (List.mem_cons_of_mem _ hb)
    obtain ⟨n', hn'⟩ := h b List.mem_cons_self
    refine ⟨max n n', fun m hm c hc => ?_⟩
    rcases List.mem_cons.mp hc with rfl | hc
    · exact hn' m (by omega)
    · exact hn m (by omega) c hc

/-- Where the calls end, some room is enough. -/
theorem exists_run_ne_full_of_not_endless (hend : ¬Endless (Leads full step calls) a) :
    ∃ n, run full step n a ≠ .error full := by
  induction acc_iff_not_endless.mpr hend with
  | intro a hacc ih =>
    obtain ⟨l, hl⟩ := exists_list_leads h a
    have heach : ∀ b ∈ l, ∃ n, ∀ m, n ≤ m → Leads full step calls a b →
        run full step m b ≠ .error full := by
      intro b _
      by_cases hleads : Leads full step calls a b
      · obtain ⟨n, hn⟩ := ih b hleads (acc_iff_not_endless.mp (hacc b hleads))
        exact ⟨n, fun m hm _ => by rwa [extends_of_le h hm b hn]⟩
      · exact ⟨0, fun _ _ hnot => absurd hnot hleads⟩
    obtain ⟨n, hn⟩ := exists_forall_of_forall_exists heach
    refine ⟨n + 1, fun hfull => ?_⟩
    obtain ⟨b, hb, hover⟩ := ((h a).eq_full_iff _).mp hfull
    have hleads : Leads full step calls a b := ⟨n, hb⟩
    exact hn n le_rfl b (hl b hleads) hleads hover

/-- Some room is enough for an argument exactly if no chain of calls goes on from it for ever. -/
theorem exists_run_ne_full_iff :
    (∃ n, run full step n a ≠ .error full) ↔ ¬Endless (Leads full step calls) a :=
  ⟨fun ⟨_, hne⟩ => not_endless_of_run_ne_full h hne, exists_run_ne_full_of_not_endless h⟩

end Room

end BoundedCalls
