import Mathlib.Data.Finset.Basic
import Roxo.Library.Transition
import Roxo.Vfs.EventPath

/-!
# Watches

`StdBackend` keeps a set of the paths that it has asked the watcher of the operating system for. A
path below one of them is not asked for again. A path is put in the set before the watcher is
asked, so it stays there where the watcher refuses.
-/

namespace Roxo

open Transition

/-- What the watcher of the operating system does with a call: a call that succeeds has taken
effect, one that fails may have. -/
structure WatcherAnswer where
  result : Except IoError Unit
  tookEffect : Bool
  sound : result = .ok () → tookEffect = true

/-- The watcher takes a path. -/
def WatcherAnswer.done : WatcherAnswer := ⟨.ok (), true, fun _ => rfl⟩

/-- The watcher refuses a path, as it does where a limit of the system is reached. -/
def WatcherAnswer.refused : WatcherAnswer :=
  ⟨.error ⟨.other, "No space left on device"⟩, false, nofun⟩

/-- `StdBackend`, with the paths that are registered recursively with the watcher. -/
structure StdBackend where
  watches : Finset PathBuf := ∅
  registered : Finset PathBuf := ∅

namespace StdBackend

/-- The path or one of its ancestors is in the set of watches. -/
def Covers (backend : StdBackend) (path : PathBuf) : Prop :=
  path ∈ backend.watches ∨ ∃ ancestor ∈ path.ancestors, ancestor ∈ backend.watches

instance (backend : StdBackend) (path : PathBuf) : Decidable (backend.Covers path) :=
  inferInstanceAs (Decidable (_ ∨ _))

def watch (backend : StdBackend) (path : PathBuf) (answer : WatcherAnswer) :
    Except IoError Unit × StdBackend :=
  if backend.Covers path then (.ok (), backend)
  else
    (answer.result,
      { watches := insert path backend.watches
        registered :=
          if answer.tookEffect then insert path backend.registered else backend.registered })

def unwatch (backend : StdBackend) (path : PathBuf) (answer : WatcherAnswer) :
    Except IoError Unit × StdBackend :=
  (answer.result,
    { watches := backend.watches.erase path
      registered :=
        if answer.tookEffect then backend.registered.erase path else backend.registered })

/-- A call of the backend, the answer of the watcher in case it is asked, and what is returned. -/
inductive WatchEvent where
  | watch (path : PathBuf) (answer : WatcherAnswer) (result : Except IoError Unit)
  | unwatch (path : PathBuf) (answer : WatcherAnswer) (result : Except IoError Unit)

inductive Act : StdBackend → WatchEvent → StdBackend → Prop
  | watch (backend : StdBackend) (path : PathBuf) (answer : WatcherAnswer) :
      Act backend (.watch path answer (backend.watch path answer).1) (backend.watch path answer).2
  | unwatch (backend : StdBackend) (path : PathBuf) (answer : WatcherAnswer) :
      Act backend (.unwatch path answer (backend.unwatch path answer).1)
        (backend.unwatch path answer).2

/-- No path is in the set of watches that the watcher does not watch. -/
def Watched (backend : StdBackend) : Prop := backend.watches ⊆ backend.registered

/-- What a call promises: the set of watches holds only what the watcher watches, and where a watch
succeeds, the path or an ancestor of it is registered. -/
structure InForce (event : WatchEvent) (backend : StdBackend) : Prop where
  watched : backend.Watched
  registered : ∀ path answer, event = .watch path answer (.ok ()) →
    ∃ ancestor ∈ path.ancestors, ancestor ∈ backend.registered

/-- The condition on a call: the watcher does not refuse a path that it is asked to watch. -/
def NotRefused (backend : StdBackend) : WatchEvent → Prop
  | .watch path answer _ =>
    backend.Covers path ∨ answer.tookEffect = true ∨ path ∈ backend.registered
  | .unwatch .. => True

/-! ## One call -/

variable {backend after : StdBackend} {path : PathBuf} {answer : WatcherAnswer}
  {event : WatchEvent}

theorem covers_iff : backend.Covers path ↔ ∃ a ∈ path.ancestors, a ∈ backend.watches := by
  refine or_iff_right_of_imp fun h => ⟨path, ?_, h⟩
  exact PathBuf.mem_ancestors.mpr ⟨rfl, List.prefix_rfl⟩

theorem watch_covered (h : backend.Covers path) : backend.watch path answer = (.ok (), backend) :=
  if_pos h

theorem watch_uncovered (h : ¬ backend.Covers path) : backend.watch path answer =
    (answer.result,
      { watches := insert path backend.watches
        registered :=
          if answer.tookEffect then insert path backend.registered else backend.registered }) :=
  if_neg h

theorem Watched.watch_iff (h : backend.Watched) : (backend.watch path answer).2.Watched ↔
    backend.Covers path ∨ answer.tookEffect = true ∨ path ∈ backend.registered := by
  by_cases hcover : backend.Covers path
  · rw [watch_covered hcover]
    exact iff_of_true h (.inl hcover)
  · rw [watch_uncovered hcover, or_iff_right hcover]
    unfold Watched
    dsimp only
    rw [Finset.insert_subset_iff]
    cases answer.tookEffect with
    | true =>
      rw [if_pos rfl]
      exact iff_of_true ⟨Finset.mem_insert_self _ _, h.trans (Finset.subset_insert _ _)⟩ (.inl rfl)
    | false =>
      rw [if_neg Bool.false_ne_true, or_iff_right Bool.false_ne_true]
      exact and_iff_left h

theorem Watched.unwatch (h : backend.Watched) : (backend.unwatch path answer).2.Watched := by
  unfold Watched StdBackend.unwatch
  dsimp only
  split_ifs
  · exact Finset.erase_subset_erase path h
  · exact (Finset.erase_subset path _).trans h

/-- A call keeps the set of watches within what is watched exactly if it is not refused. -/
theorem Watched.act_iff (h : backend.Watched) (hact : Act backend event after) :
    after.Watched ↔ backend.NotRefused event := by
  cases hact with
  | watch path answer => exact h.watch_iff
  | unwatch path answer => exact iff_of_true h.unwatch trivial

/-- A watch that succeeds is in force where the set of watches holds only what is watched. -/
theorem inForce_of_act (hact : Act backend event after) (hafter : after.Watched) :
    InForce event after := by
  refine ⟨hafter, fun path answer heq => ?_⟩
  cases hact with
  | unwatch => cases heq
  | watch path' answer' =>
    obtain ⟨rfl, rfl, hresult⟩ := WatchEvent.watch.inj heq
    by_cases hcover : backend.Covers path'
    · rw [watch_covered hcover] at hafter ⊢
      obtain ⟨ancestor, hmem, hwatched⟩ := covers_iff.mp hcover
      exact ⟨ancestor, hmem, hafter hwatched⟩
    · rw [watch_uncovered hcover] at hresult ⊢
      dsimp only at hresult ⊢
      rw [answer'.sound hresult, if_pos rfl]
      exact ⟨path', PathBuf.mem_ancestors.mpr ⟨rfl, List.prefix_rfl⟩, Finset.mem_insert_self _ _⟩

/-! ## Sequences of calls -/

/-- **Every call of a sequence keeps its promise exactly if none is refused.** -/
theorem inForce_iff {run : List (WatchEvent × StdBackend)} (h : Run Act {} run) :
    (∀ x ∈ run, InForce x.1 x.2) ↔ Run (When Act NotRefused) {} run := by
  have hstart : Watched {} := Finset.Subset.refl _
  have hiff : (∀ x ∈ run, x.2.Watched) ↔ Run (When Act NotRefused) {} run :=
    Run.forall_iff (fun _ _ _ _ _ => trivial) (fun _ _ _ _ hs hact => hs.act_iff hact) h trivial
      hstart
  rw [← hiff]
  constructor
  · exact fun hall x hx => (hall x hx).watched
  · intro hall x hx
    obtain ⟨_, hact⟩ := h.exists_act x hx
    exact inForce_of_act hact (hall x hx)

/-- A directory is watched, a file in it is then covered. -/
theorem inForce_iff_src :
    ∃ run : List (WatchEvent × StdBackend), run.length = 2 ∧
      ((∀ x ∈ run, InForce x.1 x.2) ↔ Run (When Act NotRefused) {} run) :=
  ⟨_, rfl, inForce_iff (.cons (.watch {} ⟨true, ["src"]⟩ .done)
    (.cons (.watch _ ⟨true, ["src", "a.lua"]⟩ .done) (.nil _)))⟩

/-- The watcher refuses a directory, and a watch of a file in it then succeeds without asking. -/
theorem not_inForce_src : ¬ ∀ run : List (WatchEvent × StdBackend), Run Act {} run →
    ∀ x ∈ run, InForce x.1 x.2 := by
  intro hall
  have hrun := Run.cons (Act.watch {} ⟨true, ["src"]⟩ .refused)
    (.cons (Act.watch _ ⟨true, ["src", "a.lua"]⟩ .refused) (.nil _))
  have hforce := hall _ hrun _ (List.mem_cons_of_mem _ List.mem_cons_self)
  obtain ⟨ancestor, -, hregistered⟩ := hforce.registered _ _ rfl
  exact absurd hregistered (Finset.notMem_empty ancestor)

end StdBackend

/-! ## The virtual filesystem over the backend -/

structure VfsInner where
  backend : StdBackend := {}
  watchEnabled : Bool := true

namespace VfsInner

/-- A path that has been read is watched. -/
def watchRead {α : Type} (inner : VfsInner) (path : PathBuf) (answer : WatcherAnswer) :
    Except IoError α → Except IoError α × VfsInner
  | .error err => (.error err, inner)
  | .ok contents =>
    if inner.watchEnabled then
      ((inner.backend.watch path answer).1.map fun _ => contents,
        { inner with backend := (inner.backend.watch path answer).2 })
    else (.ok contents, inner)

def read (inner : VfsInner) (path : PathBuf) (answer : WatcherAnswer)
    (contents : Except IoError (List UInt8)) : Except IoError (List UInt8) × VfsInner :=
  inner.watchRead path answer contents

def readDir (inner : VfsInner) (path : PathBuf) (answer : WatcherAnswer)
    (dir : Except IoError (List PathBuf)) : Except IoError (List PathBuf) × VfsInner :=
  inner.watchRead path answer dir

/-- What the watcher says about a path that is removed is dropped. -/
def removeFile (inner : VfsInner) (path : PathBuf) (answer : WatcherAnswer)
    (removed : Except IoError Unit) : Except IoError Unit × VfsInner :=
  (removed, { inner with backend := (inner.backend.unwatch path answer).2 })

def removeDirAll (inner : VfsInner) (path : PathBuf) (answer : WatcherAnswer)
    (removed : Except IoError Unit) : Except IoError Unit × VfsInner :=
  (removed, { inner with backend := (inner.backend.unwatch path answer).2 })

def commitEvent (inner : VfsInner) (answer : WatcherAnswer) :
    VfsEvent → Except IoError Unit × VfsInner
  | .remove path =>
    (.ok (), { inner with backend := (inner.backend.unwatch path answer).2 })
  | _ => (.ok (), inner)

/-- An operation, with what the filesystem and the watcher answer. -/
inductive Step (inner : VfsInner) : VfsInner → Prop
  | setWatchEnabled (enabled : Bool) : Step inner { inner with watchEnabled := enabled }
  | read (path answer contents) : Step inner (inner.read path answer contents).2
  | readDir (path answer dir) : Step inner (inner.readDir path answer dir).2
  | removeFile (path answer removed) : Step inner (inner.removeFile path answer removed).2
  | removeDirAll (path answer removed) : Step inner (inner.removeDirAll path answer removed).2
  | commitEvent (answer) (event : VfsEvent) : Step inner (inner.commitEvent answer event).2

variable {inner after : VfsInner}

theorem watchRead_backend {α : Type} (path : PathBuf) (answer : WatcherAnswer)
    (contents : Except IoError α) : (inner.watchRead path answer contents).2.backend = inner.backend ∨
      ∃ event, StdBackend.Act inner.backend event
        (inner.watchRead path answer contents).2.backend := by
  unfold watchRead
  cases contents with
  | error err => exact .inl rfl
  | ok contents =>
    dsimp only
    split_ifs
    · exact .inr ⟨_, .watch inner.backend path answer⟩
    · exact .inl rfl

/-- An operation makes at most one call of the backend. -/
theorem Step.backend (h : Step inner after) : after.backend = inner.backend ∨
    ∃ event, StdBackend.Act inner.backend event after.backend := by
  cases h with
  | setWatchEnabled => exact .inl rfl
  | read path answer contents => exact watchRead_backend path answer contents
  | readDir path answer dir => exact watchRead_backend path answer dir
  | removeFile path answer => exact .inr ⟨_, .unwatch inner.backend path answer⟩
  | removeDirAll path answer => exact .inr ⟨_, .unwatch inner.backend path answer⟩
  | commitEvent answer event =>
    cases event with
    | remove path => exact .inr ⟨_, .unwatch inner.backend path answer⟩
    | create path => exact .inl rfl
    | write path => exact .inl rfl

/-- An operation that makes no call that is refused. -/
def Accepted (inner after : VfsInner) : Prop :=
  ∀ event, StdBackend.Act inner.backend event after.backend → inner.backend.NotRefused event

/-- Operations of which none is refused leave only what is watched in the set of watches. -/
theorem watched_of_reachable
    (h : Reachable (fun inner => inner = {}) (restrict Step Accepted) inner) :
    inner.backend.Watched := by
  refine h.invariant (P := fun inner => inner.backend.Watched) ?_ ?_
  · rintro _ rfl
    exact Finset.Subset.refl _
  · intro s t _ hs hst
    rcases hst.1.backend with heq | ⟨event, hact⟩
    · rw [heq]
      exact hs
    · exact (hs.act_iff hact).mpr (hst.2 event hact)

end VfsInner

end Roxo
