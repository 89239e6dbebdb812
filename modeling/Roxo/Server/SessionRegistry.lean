import Mathlib.Data.List.Sort
import Roxo.Library.AssocMap
import Roxo.Library.Transition
import Roxo.Vfs.Path

/-!
# The session registry

Every session publishes a beacon in a shared directory, in a file that is named by its port, and
removes it on exit. `list` reads the files and deletes those it cannot read or whose process is
gone. Nothing locks the directory: a session opens its file, which empties it, and writes to it
later, and a file that `list` deletes is gone even if somebody has it open.
-/

namespace Roxo

open AssocMap Transition

/-- One running serve session, as advertised to other processes on this machine. -/
structure SessionBeacon where
  sessionId : String
  pid : UInt32
  address : String
  port : UInt16
  projectName : String
  projectId : String
  projectPath : PathBuf
  placeId : Option UInt64 := none
  gameId : Option UInt64 := none
  servePlaceIds : Option (List UInt64) := none
  autoConnect : String
  serverVersion : String
  startedAt : UInt64
  deriving DecidableEq

/-- How beacons are written to files. -/
class BeaconFormat where
  /-- `serde_json::to_vec_pretty`. -/
  toVecPretty : SessionBeacon → List UInt8
  /-- `serde_json::from_slice`. -/
  fromSlice : List UInt8 → Option SessionBeacon

namespace SessionRegistry

/-- The name of the file of a beacon. -/
def fileName (beacon : SessionBeacon) : String := toString beacon.port.toNat ++ ".json"

/-- `Path::extension` of a name. A leading dot starts no extension. -/
def extension (name : String) : Option String :=
  let chars := name.toList.reverse
  let stem := (chars.dropWhile (· ≠ '.')).drop 1
  if stem = [] then none else some (String.ofList (chars.takeWhile (· ≠ '.')).reverse)

/-- What a session has done. -/
inductive Phase where
  | notPublished
  /-- `publish` has opened the file and has not written it. -/
  | writing (file : ℕ)
  | running
  | ended
  deriving DecidableEq, Repr

/-- The process of the session has a file of its own in the directory. -/
def Phase.Live : Phase → Prop
  | .writing _ => True
  | .running => True
  | _ => False

/-- The directory with its files, and where the processes that use it stand. -/
structure Registry where
  entries : Map String ℕ
  contents : ℕ → List UInt8
  nextFile : ℕ
  alive : UInt32 → Bool
  sessions : ℕ → Phase
  /-- The entry that a `list` call is about to delete. -/
  doomed : ℕ → Option String

/-- What a write makes of a file: it starts at the front and leaves what is behind it. -/
def overwrite (bytes contents : List UInt8) : List UInt8 := bytes ++ contents.drop bytes.length

/-! ## Listing -/

section List

variable [BeaconFormat]

/-- The beacon in an entry, if it can be read and its process is alive. Other entries are to be
deleted. -/
def readBeacon (r : Registry) (name : String) : Option SessionBeacon :=
  match (r.entries.lookup name).bind fun file => BeaconFormat.fromSlice (r.contents file) with
  | some beacon => if r.alive beacon.pid then some beacon else none
  | none => none

/-- One round of the loop of `list`. -/
def listEntry (sessions : List SessionBeacon × Registry) (name : String) :
    List SessionBeacon × Registry :=
  if extension name ≠ some "json" then sessions
  else
    match readBeacon sessions.2 name with
    | some beacon => (sessions.1 ++ [beacon], sessions.2)
    | none => (sessions.1, { sessions.2 with entries := sessions.2.entries.erase name })

/-- Lists sessions believed to be running, pruning beacons whose process is gone. -/
def list (r : Registry) : List SessionBeacon × Registry :=
  let sessions := r.entries.keys.foldl listEntry ([], r)
  (sessions.1.mergeSort fun a b => a.port ≤ b.port, sessions.2)

end List

/-! ## Steps -/

/-- Opens a file for writing, which creates it or empties it. -/
def openFile (r : Registry) (name : String) : ℕ × Registry :=
  match r.entries.lookup name with
  | some file => (file, { r with contents := Function.update r.contents file [] })
  | none => (r.nextFile,
      { r with
        entries := r.entries.insert name r.nextFile
        contents := Function.update r.contents r.nextFile []
        nextFile := r.nextFile + 1 })

def setSession (r : Registry) (session : ℕ) (phase : Phase) : Registry :=
  { r with sessions := Function.update r.sessions session phase }

/-- A step of a process, or of the system. -/
inductive RegistryEvent where
  /-- The first half of `publish`: the file is opened. -/
  | create (session : ℕ)
  /-- The second half: the beacon is written. -/
  | write (session : ℕ)
  /-- The guard is dropped. -/
  | drop (session : ℕ)
  /-- The process of a session ends without dropping the guard. -/
  | crash (session : ℕ)
  /-- A `list` call reads an entry. -/
  | read (lister : ℕ) (name : String)
  /-- It deletes the entry that it could not make use of. -/
  | delete (lister : ℕ)
  /-- Other processes start and end. -/
  | schedule (alive : UInt32 → Bool)

section Act

variable [BeaconFormat] (beacon : ℕ → SessionBeacon)

/-- The steps, in which `beacon` are the beacons of the sessions. -/
inductive Act : Registry → RegistryEvent → Registry → Prop
  | create {r : Registry} (session : ℕ) : r.sessions session = .notPublished →
      r.alive (beacon session).pid → Act r (.create session)
        (setSession (openFile r (fileName (beacon session))).2 session
          (.writing (openFile r (fileName (beacon session))).1))
  | write {r : Registry} (session file : ℕ) : r.sessions session = .writing file →
      Act r (.write session)
        (setSession
          { r with
            contents := Function.update r.contents file
              (overwrite (BeaconFormat.toVecPretty (beacon session)) (r.contents file)) }
          session .running)
  | drop {r : Registry} (session : ℕ) : r.sessions session = .running →
      Act r (.drop session)
        (setSession { r with entries := r.entries.erase (fileName (beacon session)) }
          session .ended)
  | crash {r : Registry} (session : ℕ) : (r.sessions session).Live →
      Act r (.crash session) (setSession r session .ended)
  | read {r : Registry} (lister : ℕ) (name : String) : r.doomed lister = none →
      extension name = some "json" →
      Act r (.read lister name)
        { r with
          doomed := Function.update r.doomed lister
            (if (readBeacon r name).isSome then none else some name) }
  | delete {r : Registry} (lister : ℕ) (name : String) : r.doomed lister = some name →
      Act r (.delete lister)
        { r with
          entries := r.entries.erase name
          doomed := Function.update r.doomed lister none }
  | schedule {r : Registry} (alive : UInt32 → Bool) :
      (∀ session, (r.sessions session).Live → alive (beacon session).pid) →
      Act r (.schedule alive) { r with alive := alive }

/-- A directory that no process uses yet. There may be files in it. -/
structure Unused (r : Registry) : Prop where
  below : ∀ name file, r.entries.lookup name = some file → file < r.nextFile
  injective : ∀ name name' file, r.entries.lookup name = some file →
    r.entries.lookup name' = some file → name = name'
  sessions : ∀ session, r.sessions session = .notPublished
  doomed : ∀ lister, r.doomed lister = none

/-- The condition on a step: a session publishes only where no other session is using the file and
no `list` call is about to delete it, and no entry is read between the two halves of `publish`. -/
def Undisturbed (r : Registry) : RegistryEvent → Prop
  | .create session =>
    (∀ other, other ≠ session → (r.sessions other).Live →
      fileName (beacon other) ≠ fileName (beacon session)) ∧
    ∀ lister, r.doomed lister ≠ some (fileName (beacon session))
  | .read _ name => ∀ session file, r.sessions session = .writing file →
    fileName (beacon session) ≠ name
  | _ => True

end Act

/-! ## The phases after a step -/

section Phases

variable {r : Registry} {session other : ℕ}

@[simp] theorem sessions_setSession (r : Registry) (session : ℕ) (phase : Phase) :
    (setSession r session phase).sessions = Function.update r.sessions session phase := rfl

theorem update_phase (f : ℕ → Phase) (phase : Phase) :
    Function.update f session phase other = if other = session then phase else f other :=
  Function.update_apply f session phase other

/-- Ending a session leaves the others as they are. -/
theorem live_of_update_ended (h : (Function.update r.sessions session .ended other).Live) :
    other ≠ session ∧ (r.sessions other).Live := by
  rw [update_phase] at h
  split_ifs at h with heq
  · exact absurd h id
  · exact ⟨heq, h⟩

end Phases

/-! ## No beacon is lost -/

section Invariant

variable [BeaconFormat] {beacon : ℕ → SessionBeacon} {r t : Registry} {e : RegistryEvent}
  {session other file : ℕ} {name : String}

/-- What is in the file of a session. -/
def Phase.text (beacon : SessionBeacon) : Phase → List UInt8
  | .running => BeaconFormat.toVecPretty beacon
  | _ => []

/-- The session has its file, with what it has written. -/
structure Holds (beacon : ℕ → SessionBeacon) (r : Registry) (session file : ℕ) : Prop where
  entry : r.entries.lookup (fileName (beacon session)) = some file
  text : r.contents file = (r.sessions session).text (beacon session)
  writes : ∀ opened, r.sessions session = .writing opened → opened = file

structure Inv (beacon : ℕ → SessionBeacon) (r : Registry) : Prop where
  below : ∀ {name file}, r.entries.lookup name = some file → file < r.nextFile
  injective : ∀ {name name' file}, r.entries.lookup name = some file →
    r.entries.lookup name' = some file → name = name'
  holds : ∀ {session}, (r.sessions session).Live → ∃ file, Holds beacon r session file
  distinct : ∀ {session other}, session ≠ other → (r.sessions session).Live →
    (r.sessions other).Live → fileName (beacon session) ≠ fileName (beacon other)
  spared : ∀ {session}, (r.sessions session).Live →
    ∀ lister, r.doomed lister ≠ some (fileName (beacon session))
  alive : ∀ {session}, (r.sessions session).Live → r.alive (beacon session).pid

theorem Unused.inv (h : Unused r) : Inv beacon r := by
  have hnone : ∀ {session}, ¬ (r.sessions session).Live := by
    intro session hlive
    rw [h.sessions session] at hlive
    exact hlive
  exact ⟨h.below _ _, h.injective _ _ _, fun hlive => absurd hlive hnone,
    fun _ hlive => absurd hlive hnone, fun hlive => absurd hlive hnone,
    fun hlive => absurd hlive hnone⟩

/-- The beacon of a running session can be read. -/
theorem Inv.readBeacon_eq (h : Inv beacon r) (hrunning : r.sessions session = .running)
    (hformat : BeaconFormat.fromSlice (BeaconFormat.toVecPretty (beacon session)) =
      some (beacon session)) :
    readBeacon r (fileName (beacon session)) = some (beacon session) := by
  have hlive : (r.sessions session).Live := by
    rw [hrunning]
    trivial
  obtain ⟨file, hholds⟩ := h.holds hlive
  have htext : r.contents file = BeaconFormat.toVecPretty (beacon session) := by
    rw [hholds.text, hrunning]
    rfl
  unfold readBeacon
  rw [hholds.entry, Option.bind_some, htext, hformat]
  dsimp only
  rw [if_pos (h.alive hlive)]

/-! ### Opening a file -/

/-- What opening a file does. -/
structure Opened (r : Registry) (name : String) (file : ℕ) (r' : Registry) : Prop where
  lookup : ∀ name', r'.entries.lookup name' =
    if name' = name then some file else r.entries.lookup name'
  contents : r'.contents = Function.update r.contents file []
  apart : ∀ name', name' ≠ name → r.entries.lookup name' ≠ some file
  below : file < r'.nextFile
  nextFile : r.nextFile ≤ r'.nextFile
  sessions : r'.sessions = r.sessions
  doomed : r'.doomed = r.doomed
  alive : r'.alive = r.alive

omit [BeaconFormat] in
theorem opened_openFile (hbelow : ∀ {name file}, r.entries.lookup name = some file →
      file < r.nextFile)
    (hinj : ∀ {name name' file}, r.entries.lookup name = some file →
      r.entries.lookup name' = some file → name = name') :
    Opened r name (openFile r name).1 (openFile r name).2 := by
  unfold openFile
  cases hentry : r.entries.lookup name with
  | some file =>
    refine ⟨fun name' => ?_, rfl, fun name' hne hfile => hne (hinj hfile hentry), hbelow hentry,
      Nat.le_refl _, rfl, rfl, rfl⟩
    split_ifs with hname
    · rw [hname]
      exact hentry
    · rfl
  | none =>
    refine ⟨fun name' => lookup_insert_eq _ _ _ _, rfl, fun name' _ hfile => ?_,
      Nat.lt_succ_self _, Nat.le_succ _, rfl, rfl, rfl⟩
    exact absurd (hbelow hfile) (Nat.lt_irrefl _)

/-! ### The steps -/

theorem Inv.create (h : Inv beacon r) (halive : r.alive (beacon session).pid)
    (hok : Undisturbed beacon r (.create session)) :
    Inv beacon (setSession (openFile r (fileName (beacon session))).2 session
      (.writing (openFile r (fileName (beacon session))).1)) := by
  have hopened : Opened r (fileName (beacon session)) _ _ := opened_openFile h.below h.injective
  obtain ⟨file, hfile⟩ : ∃ file, (openFile r (fileName (beacon session))).1 = file := ⟨_, rfl⟩
  obtain ⟨r', hr'⟩ : ∃ r', (openFile r (fileName (beacon session))).2 = r' := ⟨_, rfl⟩
  rw [hfile, hr'] at hopened ⊢
  have hlive : ∀ {other}, (Function.update r'.sessions session (.writing file) other).Live →
      other = session ∨ other ≠ session ∧ (r.sessions other).Live := by
    intro other hother
    rw [update_phase, hopened.sessions] at hother
    split_ifs at hother with heq
    · exact Or.inl heq
    · exact Or.inr ⟨heq, hother⟩
  refine ⟨fun {name file'} hlookup => ?_, fun {name name' file'} hlookup hlookup' => ?_,
    fun {other} hother => ?_, fun {a b} hab ha hb => ?_, fun {other} hother lister hdoomed => ?_,
    fun {other} hother => ?_⟩
  · change r'.entries.lookup name = _ at hlookup
    rw [hopened.lookup] at hlookup
    split_ifs at hlookup
    · rw [← Option.some.inj hlookup]
      exact hopened.below
    · exact Nat.lt_of_lt_of_le (h.below hlookup) hopened.nextFile
  · change r'.entries.lookup name = _ at hlookup
    change r'.entries.lookup name' = _ at hlookup'
    rw [hopened.lookup] at hlookup hlookup'
    split_ifs at hlookup hlookup' with hname hname' hname'
    · rw [hname, hname']
    · rw [← Option.some.inj hlookup] at hlookup'
      exact absurd hlookup' (hopened.apart _ hname')
    · rw [← Option.some.inj hlookup'] at hlookup
      exact absurd hlookup (hopened.apart _ hname)
    · exact h.injective hlookup hlookup'
  · rcases hlive hother with rfl | ⟨hne, hold⟩
    · refine ⟨file, ?_, ?_, fun opened hopen => ?_⟩
      · exact (hopened.lookup _).trans (if_pos rfl)
      · change r'.contents file = (Function.update r'.sessions other _ other).text _
        rw [hopened.contents, Function.update_self, Function.update_self]
        rfl
      · rw [sessions_setSession, Function.update_self] at hopen
        injection hopen with hopen
        exact hopen.symm
    · obtain ⟨file', hholds⟩ := h.holds hold
      have hname := hok.1 other hne hold
      have hfile' : file' ≠ file := by
        rintro rfl
        exact hopened.apart _ hname hholds.entry
      refine ⟨file', ?_, ?_, fun opened hopen => hholds.writes opened ?_⟩
      · exact ((hopened.lookup _).trans (if_neg hname)).trans hholds.entry
      · change r'.contents file' = (Function.update r'.sessions session _ other).text _
        rw [hopened.contents, Function.update_of_ne hfile', Function.update_of_ne hne,
          hopened.sessions, hholds.text]
      · rwa [sessions_setSession, Function.update_of_ne hne, hopened.sessions] at hopen
  · rcases hlive ha with rfl | ⟨hane, hold⟩
    · rcases hlive hb with rfl | ⟨hbne, hold'⟩
      · exact absurd rfl hab
      · exact (hok.1 b hbne hold').symm
    · rcases hlive hb with rfl | ⟨hbne, hold'⟩
      · exact hok.1 a hane hold
      · exact h.distinct hab hold hold'
  · change r'.doomed lister = _ at hdoomed
    rw [hopened.doomed] at hdoomed
    rcases hlive hother with rfl | ⟨hne, hold⟩
    · exact hok.2 lister hdoomed
    · exact h.spared hold lister hdoomed
  · change r'.alive _ = _
    rw [hopened.alive]
    rcases hlive hother with rfl | ⟨hne, hold⟩
    · exact halive
    · exact h.alive hold

/-- A write goes to the file of the session and to no other. -/
theorem Inv.write (h : Inv beacon r) (hwriting : r.sessions session = .writing file) :
    Inv beacon (setSession
      { r with
        contents := Function.update r.contents file
          (overwrite (BeaconFormat.toVecPretty (beacon session)) (r.contents file)) }
      session .running) := by
  have hsession : (r.sessions session).Live := by
    rw [hwriting]
    trivial
  obtain ⟨file', hholds⟩ := h.holds hsession
  obtain rfl := hholds.writes file hwriting
  have hempty : r.contents file = [] := by
    rw [hholds.text, hwriting]
    rfl
  have hold : ∀ {other}, (Function.update r.sessions session .running other).Live →
      (r.sessions other).Live := by
    intro other hother
    rw [update_phase] at hother
    split_ifs at hother with heq
    · rwa [heq]
    · exact hother
  refine ⟨h.below, h.injective, fun {other} hother => ?_, fun hab ha hb =>
    h.distinct hab (hold ha) (hold hb), fun hother => h.spared (hold hother), fun hother =>
    h.alive (hold hother)⟩
  by_cases heq : other = session
  · subst heq
    refine ⟨file, hholds.entry, ?_, fun opened hopen => ?_⟩
    · rw [sessions_setSession, Function.update_self]
      change Function.update r.contents file _ file = _
      rw [Function.update_self, hempty]
      unfold overwrite
      rw [List.drop_nil, List.append_nil]
      rfl
    · rw [sessions_setSession, Function.update_self] at hopen
      cases hopen
  · obtain ⟨file', hother'⟩ := h.holds (hold hother)
    have hne : file' ≠ file := by
      rintro rfl
      exact h.distinct heq (hold hother) hsession (h.injective hother'.entry hholds.entry)
    refine ⟨file', hother'.entry, ?_, fun opened hopen => hother'.writes opened ?_⟩
    · rw [sessions_setSession, Function.update_of_ne heq]
      change Function.update r.contents file _ file' = _
      rw [Function.update_of_ne hne, hother'.text]
    · rwa [sessions_setSession, Function.update_of_ne heq] at hopen

/-- Deleting an entry that no session uses harms none. -/
theorem Inv.erase (h : Inv beacon r) (phases : ℕ → Phase) (doomed : ℕ → Option String)
    (hphases : ∀ {other}, (phases other).Live → phases other = r.sessions other ∧
      fileName (beacon other) ≠ name)
    (hdoomed : ∀ lister, doomed lister = r.doomed lister ∨ doomed lister = none) :
    Inv beacon { r with
      entries := r.entries.erase name
      sessions := phases
      doomed := doomed } := by
  have hlookup : ∀ {name' file'}, (r.entries.erase name).lookup name' = some file' →
      r.entries.lookup name' = some file' := by
    intro name' file' hfile
    rw [lookup_erase_eq] at hfile
    split_ifs at hfile
    exact hfile
  have hold : ∀ {other}, (phases other).Live → (r.sessions other).Live := by
    intro other hother
    rw [← (hphases hother).1]
    exact hother
  refine ⟨fun hfile => h.below (hlookup hfile), fun hfile hfile' =>
    h.injective (hlookup hfile) (hlookup hfile'), fun {other} hother => ?_, fun hab ha hb =>
    h.distinct hab (hold ha) (hold hb), fun {other} hother lister hlister => ?_, fun hother =>
    h.alive (hold hother)⟩
  · obtain ⟨file', hholds⟩ := h.holds (hold hother)
    obtain ⟨hphase, hname⟩ := hphases hother
    refine ⟨file', ?_, ?_, fun opened hopen => hholds.writes opened ?_⟩
    · exact (lookup_erase_eq _ _ _ ).trans ((if_neg hname).trans hholds.entry)
    · change r.contents file' = (phases other).text _
      rw [hholds.text, hphase]
    · exact hphase ▸ hopen
  · rcases hdoomed lister with hsame | hnone
    · exact h.spared (hold hother) lister (hsame ▸ hlister)
    · change doomed lister = _ at hlister
      rw [hnone] at hlister
      cases hlister

theorem Inv.drop (h : Inv beacon r) (hrunning : r.sessions session = .running) :
    Inv beacon (setSession
      { r with entries := r.entries.erase (fileName (beacon session)) } session .ended) := by
  have hsession : (r.sessions session).Live := by
    rw [hrunning]
    trivial
  refine h.erase _ _ (fun {other} hother => ?_) (fun _ => Or.inl rfl)
  obtain ⟨hne, hold⟩ := live_of_update_ended hother
  exact ⟨Function.update_of_ne hne _ _, h.distinct hne hold hsession⟩

theorem Inv.crash (h : Inv beacon r) : Inv beacon (setSession r session .ended) := by
  have hold : ∀ {other}, (Function.update r.sessions session .ended other).Live →
      other ≠ session ∧ (r.sessions other).Live := live_of_update_ended
  refine ⟨h.below, h.injective, fun {other} hother => ?_, fun hab ha hb =>
    h.distinct hab (hold ha).2 (hold hb).2, fun hother => h.spared (hold hother).2, fun hother =>
    h.alive (hold hother).2⟩
  obtain ⟨hne, hlive⟩ := hold hother
  obtain ⟨file', hholds⟩ := h.holds hlive
  refine ⟨file', hholds.entry, ?_, fun opened hopen => hholds.writes opened ?_⟩
  · rw [sessions_setSession, Function.update_of_ne hne]
    exact hholds.text
  · rwa [sessions_setSession, Function.update_of_ne hne] at hopen

/-- An entry that is to be deleted after it has been read is the entry of no session. -/
theorem Inv.read (h : Inv beacon r) (lister : ℕ)
    (hformat : ∀ session, BeaconFormat.fromSlice (BeaconFormat.toVecPretty (beacon session)) =
      some (beacon session))
    (hok : Undisturbed beacon r (.read lister name)) :
    Inv beacon { r with
      doomed := Function.update r.doomed lister
        (if (readBeacon r name).isSome then none else some name) } := by
  refine ⟨h.below, h.injective, fun hlive => ?_, h.distinct, fun {other} hlive lister' hdoomed => ?_,
    h.alive⟩
  · obtain ⟨file, hholds⟩ := h.holds hlive
    exact ⟨file, hholds.entry, hholds.text, hholds.writes⟩
  · change Function.update r.doomed lister _ lister' = _ at hdoomed
    rw [Function.update_apply] at hdoomed
    split_ifs at hdoomed with hlister hread
    · rw [Option.some.inj hdoomed] at hok hread
      cases hphase : r.sessions other with
      | notPublished =>
        change (r.sessions other).Live at hlive
        rw [hphase] at hlive
        exact hlive
      | writing file => exact hok other file hphase rfl
      | running =>
        rw [h.readBeacon_eq hphase (hformat other)] at hread
        exact hread rfl
      | ended =>
        change (r.sessions other).Live at hlive
        rw [hphase] at hlive
        exact hlive
    · exact h.spared hlive lister' hdoomed

theorem Inv.delete (h : Inv beacon r) {lister : ℕ} (hdoomed : r.doomed lister = some name) :
    Inv beacon { r with
      entries := r.entries.erase name
      doomed := Function.update r.doomed lister none } := by
  refine h.erase _ _ (fun {other} hother => ⟨rfl, fun hname => ?_⟩) (fun lister' => ?_)
  · exact h.spared hother lister (by rw [hdoomed, hname])
  · rw [Function.update_apply]
    split_ifs
    · exact Or.inr rfl
    · exact Or.inl rfl

/-- Every step that meets the condition keeps the invariant. -/
theorem Inv.act (hformat : ∀ session,
      BeaconFormat.fromSlice (BeaconFormat.toVecPretty (beacon session)) = some (beacon session))
    (h : Inv beacon r) (hst : When (Act beacon) (Undisturbed beacon) r e t) : Inv beacon t := by
  obtain ⟨hact, hok⟩ := hst
  cases hact with
  | create session hphase halive => exact h.create halive hok
  | write session file hwriting => exact h.write hwriting
  | drop session hrunning => exact h.drop hrunning
  | crash session hlive => exact h.crash
  | read lister name hidle hjson => exact h.read lister hformat hok
  | delete lister name hdoomed => exact h.delete hdoomed
  | schedule alive halive =>
    refine ⟨h.below, h.injective, fun hlive => ?_, h.distinct, h.spared, fun hlive =>
      halive _ hlive⟩
    obtain ⟨file, hholds⟩ := h.holds hlive
    exact ⟨file, hholds.entry, hholds.text, hholds.writes⟩

/-! ### What a listing returns -/

theorem readBeacon_erase {name' : String} (hne : name' ≠ name) :
    readBeacon { r with entries := r.entries.erase name } name' = readBeacon r name' := by
  unfold readBeacon
  rw [lookup_erase_eq, if_neg hne]

/-- An entry that can be used is not touched. -/
theorem readBeacon_listEntry {sessions : List SessionBeacon × Registry} {name' : String}
    {b : SessionBeacon} (h : readBeacon sessions.2 name' = some b) :
    readBeacon (listEntry sessions name).2 name' = some b := by
  unfold listEntry
  split_ifs with hjson
  · exact h
  · cases hread : readBeacon sessions.2 name with
    | some other => exact h
    | none =>
      have hne : name' ≠ name := by
        rintro rfl
        rw [h] at hread
        cases hread
      exact (readBeacon_erase hne).trans h

theorem mem_listEntry {sessions : List SessionBeacon × Registry} {b : SessionBeacon}
    (h : b ∈ sessions.1) : b ∈ (listEntry sessions name).1 := by
  unfold listEntry
  split_ifs
  · exact h
  · cases readBeacon sessions.2 name with
    | some other => exact List.mem_append_left _ h
    | none => exact h

theorem mem_foldl_listEntry {names : List String} {sessions : List SessionBeacon × Registry}
    {b : SessionBeacon} (hread : readBeacon sessions.2 name = some b)
    (hjson : extension name = some "json") (h : b ∈ sessions.1 ∨ name ∈ names) :
    b ∈ (names.foldl listEntry sessions).1 := by
  induction names generalizing sessions with
  | nil => exact h.resolve_right List.not_mem_nil
  | cons name' names ih =>
    apply ih (readBeacon_listEntry hread)
    rcases h with h | h
    · exact Or.inl (mem_listEntry h)
    · rcases List.mem_cons.mp h with rfl | h
      · refine Or.inl ?_
        unfold listEntry
        rw [if_neg (not_not.mpr hjson), hread]
        exact List.mem_append_right _ (List.mem_singleton_self b)
      · exact Or.inr h

/-- A beacon that can be used is listed. -/
theorem mem_list {b : SessionBeacon} (hread : readBeacon r name = some b)
    (hjson : extension name = some "json") : b ∈ (list r).1 := by
  unfold list
  rw [List.mem_mergeSort]
  refine mem_foldl_listEntry hread hjson (Or.inr ?_)
  rw [← AList.mem_keys, ← AList.lookup_isSome]
  unfold readBeacon at hread
  cases hentry : r.entries.lookup name with
  | some file => rfl
  | none =>
    rw [hentry] at hread
    cases hread

omit [BeaconFormat] in
/-- The name of a beacon ends in `.json`. -/
theorem extension_fileName (b : SessionBeacon) : extension (fileName b) = some "json" := by
  obtain ⟨d, digits, hdigits⟩ : ∃ d digits, (toString b.port.toNat).toList.reverse = d :: digits := by
    refine List.exists_cons_of_ne_nil fun hnil => ?_
    have hrepr : (Nat.repr b.port.toNat).toList = [] := List.reverse_eq_nil_iff.mp hnil
    rw [Nat.toList_repr] at hrepr
    exact Nat.toDigits_ne_nil hrepr
  have hchars : (fileName b).toList.reverse = 'n' :: 'o' :: 's' :: 'j' :: '.' :: d :: digits := by
    unfold fileName
    rw [String.toList_append, List.reverse_append, hdigits]
    rfl
  unfold extension
  rw [hchars]
  rfl

end Invariant

section Theorem

variable [BeaconFormat] {beacon : ℕ → SessionBeacon} {r : Registry}

/-- **No beacon is lost in a run without interference**: at any time every session that is still
running is listed. -/
theorem listed_of_undisturbed
    (hformat : ∀ session,
      BeaconFormat.fromSlice (BeaconFormat.toVecPretty (beacon session)) = some (beacon session))
    (hunused : Unused r) {run : List (RegistryEvent × Registry)}
    (hrun : Run (When (Act beacon) (Undisturbed beacon)) r run) :
    ∀ x ∈ run, ∀ session, x.2.sessions session = .running →
      beacon session ∈ (list x.2).1 := by
  intro x hx session hrunning
  have hinv : Inv beacon x.2 :=
    hrun.invariant (fun _ _ _ h hst => h.act hformat hst) hunused.inv x hx
  exact mem_list (hinv.readBeacon_eq hrunning (hformat session)) (extension_fileName _)

end Theorem

/-! ## A listing between the two halves of a publication -/

section Example

/-- A field of an object, as it is printed. -/
def jsonField (key value : String) : String := "  \"" ++ key ++ "\": " ++ value

def jsonString (text : String) : String := "\"" ++ text ++ "\""

def jsonOption (value : Option UInt64) : String :=
  match value with
  | some n => toString n.toNat
  | none => "null"

def jsonList (value : Option (List UInt64)) : String :=
  match value with
  | some [] => "[]"
  | some ns => "[\n" ++ ",\n".intercalate (ns.map fun n => "    " ++ toString n.toNat) ++ "\n  ]"
  | none => "null"

/-- A beacon of plain texts as it is printed. -/
def prettyBeacon (b : SessionBeacon) : String :=
  "\x7b\n" ++ ",\n".intercalate
    [jsonField "sessionId" (jsonString b.sessionId), jsonField "pid" (toString b.pid.toNat),
      jsonField "address" (jsonString b.address), jsonField "port" (toString b.port.toNat),
      jsonField "projectName" (jsonString b.projectName),
      jsonField "projectId" (jsonString b.projectId),
      jsonField "projectPath" (jsonString b.projectPath.display),
      jsonField "placeId" (jsonOption b.placeId), jsonField "gameId" (jsonOption b.gameId),
      jsonField "servePlaceIds" (jsonList b.servePlaceIds),
      jsonField "autoConnect" (jsonString b.autoConnect),
      jsonField "serverVersion" (jsonString b.serverVersion),
      jsonField "startedAt" (toString b.startedAt.toNat)] ++ "\n\x7d"

/-- The format on the given beacons. -/
@[reducible] def prettyFormat (known : List SessionBeacon) : BeaconFormat where
  toVecPretty b := (prettyBeacon b).toList.map fun c => UInt8.ofNat c.toNat
  fromSlice bytes := known.find? fun b =>
    ((prettyBeacon b).toList.map fun c => UInt8.ofNat c.toNat) = bytes

def testBeacon : SessionBeacon where
  sessionId := "bb2e55f4-8d4f-4a54-a2c5-2c2b2b6b2f0a"
  pid := 1
  address := "127.0.0.1"
  port := 34872
  projectName := "Test"
  projectId := "roxo-abc"
  projectPath := ⟨true, ["tmp", "default.project.json"]⟩
  autoConnect := "matching"
  serverVersion := "7.7.0"
  startedAt := 0

def emptyRegistry : Registry where
  entries := ∅
  contents _ := []
  nextFile := 0
  alive _ := true
  sessions _ := .notPublished
  doomed _ := none

theorem unused_emptyRegistry : Unused emptyRegistry := by
  have hnone : ∀ name, emptyRegistry.entries.lookup name = none := fun name =>
    AList.lookup_empty name
  refine ⟨fun name file h => ?_, fun name name' file h => ?_, fun _ => rfl, fun _ => rfl⟩
  · rw [hnone] at h
    cases h
  · rw [hnone] at h
    cases h

/-- A session of another project, in a process of its own. -/
def secondBeacon : SessionBeacon :=
  { testBeacon with
    sessionId := "0d0ac3a5-9a0c-4b2e-8f6d-3f4f1a2b3c4d"
    pid := 2
    port := 34873
    projectId := "roxo-def" }

/-- The beacons of two sessions. -/
def twoBeacons (session : ℕ) : SessionBeacon := if session = 0 then testBeacon else secondBeacon

/-- The text of a beacon starts with the id of the session. -/
theorem prettyBeacon_ne {b c : SessionBeacon}
    (hlength : b.sessionId.toList.length = c.sessionId.toList.length)
    (hne : b.sessionId.toList.map (fun c => UInt8.ofNat c.toNat) ≠
      c.sessionId.toList.map fun c => UInt8.ofNat c.toNat) :
    (prettyBeacon b).toList.map (fun c => UInt8.ofNat c.toNat) ≠
      (prettyBeacon c).toList.map fun c => UInt8.ofNat c.toNat := by
  have hstart : ∀ b, ∃ rest, (prettyBeacon b).toList = "\x7b\n".toList ++ ("  \"".toList ++
      ("sessionId".toList ++ ("\": ".toList ++ ("\"".toList ++ (b.sessionId.toList ++ rest))))) := by
    intro b
    unfold prettyBeacon jsonField jsonString
    rw [String.intercalate_cons_cons]
    simp only [String.toList_append, List.append_assoc]
    exact ⟨_, rfl⟩
  obtain ⟨rest, hb⟩ := hstart b
  obtain ⟨rest', hc⟩ := hstart c
  intro h
  rw [hb, hc] at h
  simp only [List.map_append] at h
  iterate 5 replace h := List.append_cancel_left h
  exact hne (List.append_inj h (by rw [List.length_map, List.length_map, hlength])).1

theorem fromSlice_second {b c : SessionBeacon}
    (hne : (prettyBeacon c).toList.map (fun c => UInt8.ofNat c.toNat) ≠
      (prettyBeacon b).toList.map fun c => UInt8.ofNat c.toNat) :
    letI := prettyFormat [c, b]
    BeaconFormat.fromSlice (BeaconFormat.toVecPretty b) = some b := by
  change List.find? (fun d => decide ((prettyBeacon d).toList.map (fun c => UInt8.ofNat c.toNat) =
    (prettyBeacon b).toList.map fun c => UInt8.ofNat c.toNat)) [c, b] = some b
  rw [List.find?_cons_of_neg, List.find?_cons_of_pos]
  · exact decide_eq_true rfl
  · exact fun h => hne (of_decide_eq_true h)

theorem fromSlice_twoBeacons (session : ℕ) : letI := prettyFormat [testBeacon, secondBeacon]
    BeaconFormat.fromSlice (BeaconFormat.toVecPretty (twoBeacons session)) =
      some (twoBeacons session) := by
  unfold twoBeacons
  split_ifs
  · exact List.find?_cons_of_pos (decide_eq_true rfl)
  · exact fromSlice_second (prettyBeacon_ne (by decide) (by decide))

theorem create_twoBeacons {r : Registry} {session : ℕ} (hnew : r.sessions session = .notPublished)
    (halive : r.alive (twoBeacons session).pid)
    (hfree : Undisturbed twoBeacons r (.create session)) :
    letI := prettyFormat [testBeacon, secondBeacon]
    ∃ r' file, When (Act twoBeacons) (Undisturbed twoBeacons) r (.create session) r' ∧
      r'.sessions = Function.update r.sessions session (.writing file) ∧
      r'.alive = r.alive ∧ r'.doomed = r.doomed := by
  let _ := prettyFormat [testBeacon, secondBeacon]
  refine ⟨_, (openFile r (fileName (twoBeacons session))).1, ⟨.create session hnew halive, hfree⟩,
    ?_⟩
  unfold setSession openFile
  cases r.entries.lookup (fileName (twoBeacons session)) <;> exact ⟨rfl, rfl, rfl⟩

theorem write_twoBeacons {r : Registry} {session file : ℕ} (h : r.sessions session = .writing file) :
    letI := prettyFormat [testBeacon, secondBeacon]
    ∃ r', When (Act twoBeacons) (Undisturbed twoBeacons) r (.write session) r' ∧
      r'.sessions = Function.update r.sessions session .running ∧ r'.doomed = r.doomed := by
  let _ := prettyFormat [testBeacon, secondBeacon]
  exact ⟨_, ⟨.write session file h, trivial⟩, rfl, rfl⟩

theorem read_twoBeacons {r : Registry} {lister session : ℕ} (hfree : r.doomed lister = none)
    (hcond : Undisturbed twoBeacons r (.read lister (fileName (twoBeacons session)))) :
    letI := prettyFormat [testBeacon, secondBeacon]
    ∃ r', When (Act twoBeacons) (Undisturbed twoBeacons) r
      (.read lister (fileName (twoBeacons session))) r' ∧ r'.sessions = r.sessions := by
  let _ := prettyFormat [testBeacon, secondBeacon]
  exact ⟨_, ⟨.read lister _ hfree (extension_fileName _), hcond⟩, rfl⟩

theorem exists_twoBeacons : letI := prettyFormat [testBeacon, secondBeacon]
    ∃ run : List (RegistryEvent × Registry),
      Run (When (Act twoBeacons) (Undisturbed twoBeacons)) emptyRegistry run ∧
      run.map Prod.fst =
        [.create 0, .create 1, .write 0, .read 0 (fileName (twoBeacons 0)), .write 1] ∧
      ∀ x ∈ run.getLast?, x.2.sessions 0 = .running ∧ x.2.sessions 1 = .running := by
  let _ := prettyFormat [testBeacon, secondBeacon]
  have hnames : fileName (twoBeacons 0) ≠ fileName (twoBeacons 1) := by decide
  have hidle : ∀ session, emptyRegistry.sessions session = .notPublished := fun _ => rfl
  obtain ⟨r₁, file₁, h₁, hs₁, ha₁, hd₁⟩ := create_twoBeacons (hidle 0) rfl
    ⟨fun other _ hlive => absurd hlive id, fun _ h => by cases h⟩
  have hfree : Undisturbed twoBeacons r₁ (.create 1) := by
    refine ⟨fun other _ hlive => ?_, fun _ h => ?_⟩
    · by_cases h0 : other = 0
      · exact h0 ▸ hnames
      · rw [hs₁, Function.update_of_ne h0] at hlive
        exact absurd hlive id
    · rw [hd₁] at h
      cases h
  obtain ⟨r₂, file₂, h₂, hs₂, -, hd₂⟩ := @create_twoBeacons r₁ 1 (by rw [hs₁]; rfl)
    (by rw [ha₁]; rfl) hfree
  obtain ⟨r₃, h₃, hs₃, hd₃⟩ := @write_twoBeacons r₂ 0 file₁ (by
    rw [hs₂, hs₁]
    rfl)
  have hread : Undisturbed twoBeacons r₃ (.read 0 (fileName (twoBeacons 0))) := by
    intro session file hwriting
    rw [hs₃, hs₂, hs₁] at hwriting
    by_cases h0 : session = 0
    · subst h0
      cases hwriting
    by_cases h1 : session = 1
    · exact h1 ▸ hnames.symm
    · rw [Function.update_of_ne h0, Function.update_of_ne h1, Function.update_of_ne h0] at hwriting
      cases hwriting
  obtain ⟨r₄, h₄, hs₄⟩ := @read_twoBeacons r₃ 0 0 (by rw [hd₃, hd₂, hd₁]; rfl) hread
  obtain ⟨r₅, h₅, hs₅, -⟩ := @write_twoBeacons r₄ 1 file₂ (by
    rw [hs₄, hs₃, hs₂]
    rfl)
  refine ⟨_, .cons h₁ (.cons h₂ (.cons h₃ (.cons h₄ (.cons h₅ (.nil _))))), rfl, ?_⟩
  rintro x ⟨⟩
  change r₅.sessions 0 = _ ∧ r₅.sessions 1 = _
  rw [hs₅, hs₄, hs₃]
  exact ⟨rfl, rfl⟩

/-- Two sessions publish, and a listing reads the entry of the first before the second has written
its beacon. -/
theorem listed_twoBeacons : letI := prettyFormat [testBeacon, secondBeacon]
    ∃ run : List (RegistryEvent × Registry),
      Run (When (Act twoBeacons) (Undisturbed twoBeacons)) emptyRegistry run ∧
      run.map Prod.fst =
        [.create 0, .create 1, .write 0, .read 0 (fileName (twoBeacons 0)), .write 1] ∧
      (∀ x ∈ run.getLast?, x.2.sessions 0 = .running ∧ x.2.sessions 1 = .running) ∧
      ∀ x ∈ run, ∀ session, x.2.sessions session = .running →
        twoBeacons session ∈ (list x.2).1 := by
  let _ := prettyFormat [testBeacon, secondBeacon]
  obtain ⟨run, hrun, hevents, hlast⟩ := exists_twoBeacons
  exact ⟨run, hrun, hevents, hlast,
    listed_of_undisturbed fromSlice_twoBeacons unused_emptyRegistry hrun⟩

/-- A listing that reads the file before it is written deletes it afterwards. -/
theorem not_listed_testBeacon : letI := prettyFormat [testBeacon]
    ¬ ∀ run : List (RegistryEvent × Registry), Run (Act fun _ => testBeacon) emptyRegistry run →
      ∀ x ∈ run, (∀ session file, x.2.sessions session ≠ .writing file) →
        ∀ session, x.2.sessions session = .running → testBeacon ∈ (list x.2).1 := by
  let _ := prettyFormat [testBeacon]
  intro hall
  have hrun : ∃ (run : List (RegistryEvent × Registry)) (x : RegistryEvent × Registry),
      Run (Act fun _ => testBeacon) emptyRegistry run ∧ x ∈ run ∧
        x.2.sessions = Function.update (Function.update emptyRegistry.sessions 0 (.writing 0)) 0
          .running ∧ x.2.entries.keys = [] := by
    refine ⟨_, _, .cons (.create 0 rfl rfl) (.cons (.read 0 (fileName testBeacon) rfl
      (extension_fileName testBeacon)) (.cons (.write 0 0 rfl)
        (.cons (.delete 0 (fileName testBeacon) ?_) (.nil _)))),
      List.mem_cons_of_mem _ (List.mem_cons_of_mem _ (List.mem_cons_of_mem _
        List.mem_cons_self)), rfl, ?_⟩
    · decide +kernel
    · decide +kernel
  obtain ⟨run, x, hrun, hx, hsessions, hkeys⟩ := hrun
  have hmem : testBeacon ∈ (list x.2).1 := by
    refine hall run hrun x hx (fun session file => ?_) 0 ?_
    · rw [hsessions, Function.update_idem, Function.update_apply]
      split_ifs
      · nofun
      · nofun
    · rw [hsessions, Function.update_self]
  unfold list at hmem
  rw [hkeys] at hmem
  rw [List.mem_mergeSort] at hmem
  cases hmem

end Example

end SessionRegistry

end Roxo
