import Mathlib.Logic.Relation

/-!
# Runs of a system

A system is a predicate on its initial states and a step relation. `Reachable` are the states of
its runs; an invariant holds of the initial states and is kept by every step from a reachable
state (`Reachable.invariant`). A run in which every step meets a condition is a run of the system
with the smaller step relation (`restrict`).

Where the steps carry labels a run is the list of its labels and states (`Run`). A property that
every step keeps exactly under a condition on the label and the state before holds all along a run
exactly if every step meets the condition (`Run.forall_iff`); the same goes for a property of the
steps themselves (`Run.steps_iff`).
-/

namespace Transition

variable {σ : Type*} {init : σ → Prop} {step step' : σ → σ → Prop} {s t : σ}

/-- The states of the runs of a system. -/
inductive Reachable (init : σ → Prop) (step : σ → σ → Prop) : σ → Prop
  | init {s : σ} : init s → Reachable init step s
  | step {s t : σ} : Reachable init step s → step s t → Reachable init step t

/-- **The invariant rule.** -/
theorem Reachable.invariant {P : σ → Prop} (hinit : ∀ s, init s → P s)
    (hstep : ∀ s t, Reachable init step s → P s → step s t → P t)
    (h : Reachable init step s) : P s := by
  induction h with
  | init h => exact hinit _ h
  | step hs hst ih => exact hstep _ _ hs ih hst

/-- The steps that meet a condition. -/
def restrict (step : σ → σ → Prop) (ok : σ → σ → Prop) (s t : σ) : Prop := step s t ∧ ok s t

section Labelled

variable {ε : Type*} {act : σ → ε → σ → Prop} {run : List (ε × σ)}

/-- A run from a state: the labels of its steps, each with the state after it. -/
inductive Run (act : σ → ε → σ → Prop) : σ → List (ε × σ) → Prop
  | nil (s : σ) : Run act s []
  | cons {s t : σ} {e : ε} {run : List (ε × σ)} :
      act s e t → Run act t run → Run act s ((e, t) :: run)

/-- The steps that meet a condition on the label and the state before. -/
def When (act : σ → ε → σ → Prop) (ok : σ → ε → Prop) (s : σ) (e : ε) (t : σ) : Prop :=
  act s e t ∧ ok s e

/-- A run whose steps meet a condition is a run. -/
theorem Run.of_when {ok : σ → ε → Prop} (h : Run (When act ok) s run) : Run act s run := by
  induction h with
  | nil s => exact .nil s
  | cons hst _ ih => exact .cons hst.1 ih

/-- The state after a run. -/
def endOf (s : σ) : List (ε × σ) → σ
  | [] => s
  | (_, t) :: run => endOf t run

/-- A run can be continued from its end. -/
theorem Run.concat {e : ε} (h : Run act s run) (hst : act (endOf s run) e t) :
    Run act s (run ++ [(e, t)]) := by
  induction h with
  | nil s => exact .cons hst (.nil t)
  | cons hfirst _ ih => exact .cons hfirst (ih hst)

theorem Run.last {e : ε} (h : Run act s (run ++ [(e, t)])) : act (endOf s run) e t := by
  induction run generalizing s with
  | nil =>
    cases h with
    | cons hst _ => exact hst
  | cons x run ih =>
    cases h with
    | cons _ hrest => exact ih hrest

/-- Every state of a run is that after a step. -/
theorem Run.exists_act (h : Run act s run) : ∀ x ∈ run, ∃ t, act t x.1 x.2 := by
  induction h with
  | nil s => exact fun x hx => (List.not_mem_nil hx).elim
  | cons hst _ ih =>
    intro x hx
    rcases List.mem_cons.mp hx with rfl | hx
    · exact ⟨_, hst⟩
    · exact ih x hx

/-- **The invariant rule for a run.** -/
theorem Run.invariant {P : σ → Prop} (hstep : ∀ s e t, P s → act s e t → P t)
    (h : Run act s run) (hs : P s) : ∀ x ∈ run, P x.2 := by
  induction h with
  | nil s => exact fun x hx => (List.not_mem_nil hx).elim
  | cons hst _ ih =>
    have ht := hstep _ _ _ hs hst
    intro x hx
    rcases List.mem_cons.mp hx with rfl | hx
    · exact ht
    · exact ih ht x hx

/-- **The rule for an exact condition.** Under the invariant `I`, a step keeps `P` if and only if
it meets `ok`. -/
theorem Run.forall_iff {I P : σ → Prop} {ok : σ → ε → Prop}
    (hI : ∀ s e t, I s → act s e t → I t)
    (hstep : ∀ s e t, I s → P s → act s e t → (P t ↔ ok s e))
    (h : Run act s run) (hi : I s) (hp : P s) :
    (∀ x ∈ run, P x.2) ↔ Run (When act ok) s run := by
  induction h with
  | nil s => exact ⟨fun _ => .nil s, fun _ x hx => (List.not_mem_nil hx).elim⟩
  | cons hst _ ih =>
    have hiff := hstep _ _ _ hi hp hst
    have hi' := hI _ _ _ hi hst
    constructor
    · intro hall
      have hp' := hall _ List.mem_cons_self
      exact .cons ⟨hst, hiff.mp hp'⟩
        ((ih hi' hp').mp fun x hx => hall x (List.mem_cons_of_mem _ hx))
    · intro hrun
      cases hrun with
      | cons hw hrest =>
        have hp' := hiff.mpr hw.2
        intro x hx
        rcases List.mem_cons.mp hx with rfl | hx
        · exact hp'
        · exact (ih hi' hp').mpr hrest x hx

/-- **The rule for an exact condition on steps.** Under the invariant `I`, which steps that meet `Q`
keep, a step meets `Q` if and only if it meets `ok`. -/
theorem Run.steps_iff {I : σ → Prop} {Q : σ → ε → σ → Prop} {ok : σ → ε → Prop}
    (hI : ∀ s e t, I s → act s e t → Q s e t → I t)
    (hstep : ∀ s e t, I s → act s e t → (Q s e t ↔ ok s e)) (h : Run act s run) (hi : I s) :
    Run (fun s e t => act s e t ∧ Q s e t) s run ↔ Run (When act ok) s run := by
  induction h with
  | nil s => exact iff_of_true (.nil s) (.nil s)
  | cons hst _ ih =>
    have hiff := hstep _ _ _ hi hst
    constructor
    · rintro (_ | ⟨hq, hrest⟩)
      exact .cons ⟨hst, hiff.mp hq.2⟩ ((ih (hI _ _ _ hi hst hq.2)).mp hrest)
    · rintro (_ | ⟨hw, hrest⟩)
      have hq := hiff.mpr hw.2
      exact .cons ⟨hst, hq⟩ ((ih (hI _ _ _ hi hst hq)).mpr hrest)

end Labelled

end Transition
