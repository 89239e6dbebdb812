import Roxo.Library.BinaryFloat
import Mathlib.Data.List.Induction
import Mathlib.Data.List.Perm.Basic
import Mathlib.Data.Prod.Lex
import Mathlib.Data.Nat.Notation

/-!
# Versions and update prompts

Versions are ordered by their numbers. Of two prereleases with the same numbers the suffixes are
compared by the first number in each, and without one the comparison is not meaningful: its result
is 0, which is not transitive (`compare_le_trans_iff`). The scan of the releases still finds a
maximal one (`isLatest_latestCompatible`), but whether the user hears of it can depend on the order
of the releases (`agree_iff`).
-/

namespace Roxo.Plugin.Version

/-- What the runtime makes of a numeral: `tostring (tonumber text)`, where `text` is one. -/
class Numerals where
  numeral : String → Option String

/-- A version of the form {major, minor, revision}, with the text of its suffix. -/
structure Parts where
  major : ℕ
  minor : Option ℕ
  revision : Option ℕ
  prerelease : Option String
  deriving DecidableEq, Repr

/-- `tonumber` of digits: the bits of the nearest double, or of infinity. -/
def tonumber (digits : List Char) : ℕ :=
  let value := digits.foldl (fun value c => 10 * value + (c.toNat - '0'.toNat)) 0
  min (BinaryFloat.encode 52 (value * 2 ^ 1074) 0) (2047 * 2 ^ 52)

def compareNumbers (a b : ℕ) : ℤ :=
  if a > b then 1
  else if a < b then -1
  else 0

/-- The first number in a suffix: `string.match` with `(%d+).*$`. -/
def prereleaseNumeric (prerelease : String) : Option ℕ :=
  match (prerelease.toList.dropWhile fun c => !c.isDigit).takeWhile Char.isDigit with
  | [] => none
  | digits => some (tonumber digits)

def comparePrereleases : Option String → Option String → ℤ
  | none, none => 0
  -- if one is a prerelease it is older
  | some _, none => -1
  | none, some _ => 1
  | some a, some b =>
    match prereleaseNumeric a, prereleaseNumeric b with
    | some aNumeric, some bNumeric => compareNumbers aNumeric bNumeric
    | _, _ => 0

/-- The suffix of a prerelease. -/
def Parts.suffix (a : Parts) : Option String :=
  if a.prerelease = some "" then none else a.prerelease

def compare (a b : Parts) : ℤ :=
  let major := compareNumbers a.major b.major
  let minor := compareNumbers (a.minor.getD 0) (b.minor.getD 0)
  let revision := compareNumbers (a.revision.getD 0) (b.revision.getD 0)
  if major ≠ 0 then major
  else if minor ≠ 0 then minor
  else if revision ≠ 0 then revision
  else comparePrereleases a.suffix b.suffix

/-- A number at the start of a text, and what follows it. -/
def matchNumber (chars : List Char) : Option (List Char × List Char) :=
  match chars.span Char.isDigit with
  | ([], _) => none
  | found => some found

def matchPoint : List Char → Option (List Char)
  | '.' :: rest => some rest
  | _ => none

/-- `string.match` with `^v?(%d+)%.(%d+)%.(%d+)(.*)$`; a version has nothing in it without one. -/
def parse [Numerals] (versionString : String) : Option Parts := do
  let chars := versionString.toList
  let (major, rest) ← matchNumber (if chars.head? = some 'v' then chars.tail else chars)
  let (minor, rest) ← matchNumber (← matchPoint rest)
  let (revision, rest) ← matchNumber (← matchPoint rest)
  let suffix := (Numerals.numeral (.ofList rest)).getD (.ofList rest)
  some
    { major := tonumber major
      minor := some (tonumber minor)
      revision := some (tonumber revision)
      prerelease := if suffix = "" then none else some suffix }

structure Release where
  tagName : String
  prerelease : Bool
  publishedAt : ℤ
  deriving DecidableEq, Repr

structure LatestReleaseInfo where
  version : Parts
  prerelease : Bool
  publishedUnixTimestamp : ℤ
  deriving DecidableEq, Repr

structure Options where
  version : Parts
  includePrereleases : Bool

/-- One pass of the loop over the releases. A tag that is no version is an error. -/
def considerRelease [Numerals] (options : Options) (latestCompatible : Option LatestReleaseInfo)
    (release : Release) : Option (Option LatestReleaseInfo) :=
  if !options.includePrereleases && release.prerelease then some latestCompatible
  else
    match parse release.tagName with
    | none => none
    | some releaseVersion =>
      if releaseVersion.major > options.version.major then some latestCompatible
      else if latestCompatible.any fun latest => compare releaseVersion latest.version ≤ 0 then
        some latestCompatible
      else some (some ⟨releaseVersion, release.prerelease, release.publishedAt⟩)

def latestCompatible [Numerals] (options : Options) (releases : List Release) :
    Option (Option LatestReleaseInfo) :=
  releases.foldlM (considerRelease options) none

/-- The latest version if it is newer than the current one. -/
def newerThan (current : Parts) : Option LatestReleaseInfo → Option LatestReleaseInfo :=
  Option.filter fun latest => !decide (compare latest.version current ≤ 0)

/-- Nothing is returned if the latest found is not newer than the current version. -/
def retrieveLatestCompatible [Numerals] (options : Options) (releases : List Release) :
    Option (Option LatestReleaseInfo) :=
  (latestCompatible options releases).map (newerThan options.version)

/-! ## The order of the versions -/

/-- The numbers of a version, the first ones first. -/
def Parts.numbers (a : Parts) : ℕ ×ₗ ℕ ×ₗ ℕ :=
  toLex (a.major, toLex (a.minor.getD 0, a.revision.getD 0))

theorem compare_of_lt {a b : Parts} (h : a.numbers < b.numbers) : compare a b = -1 := by
  simp only [Parts.numbers, Prod.Lex.toLex_lt_toLex] at h
  unfold compare compareNumbers
  grind

theorem compare_of_gt {a b : Parts} (h : b.numbers < a.numbers) : compare a b = 1 := by
  simp only [Parts.numbers, Prod.Lex.toLex_lt_toLex] at h
  unfold compare compareNumbers
  grind

theorem compare_of_eq {a b : Parts} (h : a.numbers = b.numbers) :
    compare a b = comparePrereleases a.suffix b.suffix := by
  simp only [Parts.numbers, toLex_inj, Prod.mk.injEq] at h
  obtain ⟨hmajor, hminor, hrevision⟩ := h
  simp [compare, compareNumbers, hmajor, hminor, hrevision]

@[simp] theorem compareNumbers_le {a b : ℕ} : compareNumbers a b ≤ 0 ↔ a ≤ b := by
  unfold compareNumbers
  grind

theorem compareNumbers_swap (a b : ℕ) : compareNumbers a b = -compareNumbers b a := by
  unfold compareNumbers
  grind

theorem comparePrereleases_self (a : Option String) : comparePrereleases a a = 0 := by
  cases a with
  | none => rfl
  | some a => cases h : prereleaseNumeric a <;> simp [comparePrereleases, compareNumbers, h]

theorem comparePrereleases_swap (a b : Option String) :
    comparePrereleases a b = -comparePrereleases b a := by
  cases a <;> cases b <;> try rfl
  rename_i a b
  cases ha : prereleaseNumeric a <;> cases hb : prereleaseNumeric b <;>
    simp only [comparePrereleases, ha, hb, neg_zero]
  exact compareNumbers_swap _ _

theorem compare_self (a : Parts) : compare a a = 0 := by
  rw [compare_of_eq rfl, comparePrereleases_self]

theorem compare_swap (a b : Parts) : compare a b = -compare b a := by
  rcases lt_trichotomy a.numbers b.numbers with h | h | h
  · rw [compare_of_lt h, compare_of_gt h]
  · rw [compare_of_eq h, compare_of_eq h.symm, comparePrereleases_swap]
  · rw [compare_of_gt h, compare_of_lt h, neg_neg]

theorem compare_le_iff {a b : Parts} : compare a b ≤ 0 ↔
    a.numbers < b.numbers ∨ a.numbers = b.numbers ∧ comparePrereleases a.suffix b.suffix ≤ 0 := by
  rcases lt_trichotomy a.numbers b.numbers with h | h | h
  · simp [compare_of_lt h, h]
  · simp [compare_of_eq h, h]
  · simp [compare_of_gt h, h.not_gt, h.ne']

/-- The suffix of a prerelease has a number in it, or has none. -/
def Parts.Numbered (a : Parts) (n : Option ℕ) : Prop :=
  ∃ suffix, a.suffix = some suffix ∧ prereleaseNumeric suffix = n

/-- Prereleases with the same numbers: the suffix in the middle has no number, so that it compares
to both others as the same, and of these the first one is the newer. -/
structure Detour (a b c : Parts) : Prop where
  numbers : a.numbers = b.numbers ∧ b.numbers = c.numbers
  middle : b.Numbered none
  outer : ∃ m n, a.Numbered (some m) ∧ c.Numbered (some n) ∧ n < m

theorem comparePrereleases_trans {a b c : Option String} (hab : comparePrereleases a b ≤ 0)
    (hbc : comparePrereleases b c ≤ 0) (hac : 0 < comparePrereleases a c) :
    ∃ x y z m n, a = some x ∧ b = some y ∧ c = some z ∧ prereleaseNumeric x = some m ∧
      prereleaseNumeric y = none ∧ prereleaseNumeric z = some n ∧ n < m := by
  match a, b, c with
  | none, some _, _ => simp [comparePrereleases] at hab
  | _, none, some _ => simp [comparePrereleases] at hbc
  | none, none, none => simp [comparePrereleases] at hac
  | some _, _, none => simp [comparePrereleases] at hac
  | some x, some y, some z =>
    cases hx : prereleaseNumeric x <;> cases hy : prereleaseNumeric y <;>
      cases hz : prereleaseNumeric z <;>
      simp only [comparePrereleases, hx, hy, hz, compareNumbers_le, lt_self_iff_false]
        at hab hbc hac
    · exact ⟨x, y, z, _, _, rfl, rfl, rfl, hx, hy, hz,
        not_le.mp fun hle => hac.not_ge (compareNumbers_le.mpr hle)⟩
    · exact absurd (compareNumbers_le.mpr (hab.trans hbc)) hac.not_ge

theorem compare_le_trans_iff {a b c : Parts} (hab : compare a b ≤ 0) (hbc : compare b c ≤ 0) :
    compare a c ≤ 0 ↔ ¬Detour a b c := by
  constructor
  · rintro hac ⟨⟨hnumbers, hnumbers'⟩, -, m, n, ⟨x, hx, hm⟩, ⟨z, hz, hn⟩, hlt⟩
    rw [compare_of_eq (hnumbers.trans hnumbers'), hx, hz] at hac
    simp only [comparePrereleases, hm, hn, compareNumbers_le] at hac
    omega
  · intro hdetour
    rw [compare_le_iff] at hab hbc ⊢
    rcases hab with hab | ⟨hab, hab'⟩ <;> rcases hbc with hbc | ⟨hbc, hbc'⟩
    · exact .inl (hab.trans hbc)
    · exact .inl (hbc ▸ hab)
    · exact .inl (hab ▸ hbc)
    · refine .inr ⟨hab.trans hbc, not_lt.mp fun hac => hdetour ?_⟩
      obtain ⟨x, y, z, m, n, hx, hy, hz, hm, hnone, hn, hlt⟩ :=
        comparePrereleases_trans hab' hbc' hac
      exact ⟨⟨hab, hbc⟩, ⟨y, hy, hnone⟩, m, n, ⟨x, hx, hm⟩, ⟨z, hz, hn⟩, hlt⟩

/-- A suffix without a number compares to other prereleases as the same. -/
theorem Detour.compare_eq_zero {a b c : Parts} (h : Detour a b c) :
    compare a b = 0 ∧ compare b c = 0 := by
  obtain ⟨⟨hab, hbc⟩, ⟨y, hy, hnone⟩, m, n, ⟨x, hx, hm⟩, ⟨z, hz, hn⟩, -⟩ := h
  rw [compare_of_eq hab, compare_of_eq hbc, hx, hy, hz]
  simp [comparePrereleases, hm, hnone, hn]

theorem compare_le_of_le_of_lt {a b c : Parts} (hab : compare a b ≤ 0) (hbc : compare b c < 0) :
    compare a c ≤ 0 :=
  (compare_le_trans_iff hab hbc.le).mpr fun h => hbc.ne h.compare_eq_zero.2

/-! ## The scan of the releases -/

section

variable [Numerals]

/-- The version that a release offers; the inner `none` is one that is not wanted or potentially
incompatible. -/
def candidate (options : Options) (release : Release) : Option (Option LatestReleaseInfo) :=
  if !options.includePrereleases && release.prerelease then some none
  else
    (parse release.tagName).map fun version =>
      if version.major > options.version.major then none
      else some ⟨version, release.prerelease, release.publishedAt⟩

def candidates (options : Options) (releases : List Release) : List LatestReleaseInfo :=
  releases.filterMap fun release => (candidate options release).join

/-- The newer one of the latest version so far and the next one. -/
def newer (latest : Option LatestReleaseInfo) (info : LatestReleaseInfo) :
    Option LatestReleaseInfo :=
  if latest.any fun latest => compare info.version latest.version ≤ 0 then latest else some info

theorem considerRelease_eq (options : Options) (latest : Option LatestReleaseInfo)
    (release : Release) : considerRelease options latest release =
      (candidate options release).map fun info => info.elim latest (newer latest) := by
  unfold considerRelease candidate newer
  cases hskip : !options.includePrereleases && release.prerelease
  · cases parse release.tagName with
    | none => simp
    | some version =>
      by_cases hmajor : version.major > options.version.major
      · simp [hmajor]
      · simp only [Bool.false_eq_true, if_false, if_neg hmajor, Option.map_some, Option.elim_some]
        split_ifs <;> rfl
  · simp

/-- The tag of every release is a version. -/
def Readable (releases : List Release) : Prop :=
  ∀ release ∈ releases, (parse release.tagName).isSome

instance (releases : List Release) : Decidable (Readable releases) :=
  inferInstanceAs (Decidable (∀ release ∈ releases, (parse release.tagName).isSome))

theorem isSome_candidate (options : Options) {release : Release}
    (h : (parse release.tagName).isSome) : (candidate options release).isSome := by
  unfold candidate
  split_ifs <;> simp [h]

theorem foldlM_considerRelease (options : Options) {releases : List Release}
    (h : Readable releases) (latest : Option LatestReleaseInfo) :
    releases.foldlM (considerRelease options) latest =
      some ((candidates options releases).foldl newer latest) := by
  induction releases generalizing latest with
  | nil => rfl
  | cons release releases ih =>
    obtain ⟨info, hinfo⟩ :=
      Option.isSome_iff_exists.mp (isSome_candidate options (h release List.mem_cons_self))
    have hrest : Readable releases := fun r hr => h r (List.mem_cons_of_mem _ hr)
    rw [List.foldlM_cons, considerRelease_eq, hinfo, Option.map_some]
    cases info <;> simp [candidates, hinfo, ih hrest]

theorem latestCompatible_eq (options : Options) {releases : List Release}
    (h : Readable releases) : latestCompatible options releases =
      some ((candidates options releases).foldl newer none) :=
  foldlM_considerRelease options h none

end

/-- No candidate is newer. -/
def Maximal (candidates : List LatestReleaseInfo) (latest : LatestReleaseInfo) : Prop :=
  latest ∈ candidates ∧ ∀ info ∈ candidates, compare info.version latest.version ≤ 0

instance : DecidableRel Maximal := fun candidates latest =>
  inferInstanceAs (Decidable
    (latest ∈ candidates ∧ ∀ info ∈ candidates, compare info.version latest.version ≤ 0))

/-- The latest of the candidates, if there are any. -/
def IsLatest (candidates : List LatestReleaseInfo) : Option LatestReleaseInfo → Prop
  | none => candidates = []
  | some latest => Maximal candidates latest

theorem IsLatest.newer {candidates : List LatestReleaseInfo} {latest : Option LatestReleaseInfo}
    (h : IsLatest candidates latest) (info : LatestReleaseInfo) :
    IsLatest (candidates ++ [info]) (newer latest info) := by
  cases latest with
  | none =>
    have hnil : candidates = [] := h
    simp [hnil, Version.newer, IsLatest, Maximal, compare_self]
  | some latest =>
    obtain ⟨hmem, hle⟩ : Maximal candidates latest := h
    by_cases hinfo : compare info.version latest.version ≤ 0
    · simp only [Version.newer, Option.any_some, hinfo, decide_true, if_true]
      exact ⟨by simp [hmem], by simpa [or_imp, forall_and, hinfo] using hle⟩
    · simp only [Version.newer, Option.any_some, hinfo, decide_false, Bool.false_eq_true, if_false]
      have hlt : compare latest.version info.version < 0 := by
        rw [compare_swap]
        omega
      refine ⟨by simp, fun other hother => ?_⟩
      rcases List.mem_append.mp hother with hother | hother
      · exact compare_le_of_le_of_lt (hle other hother) hlt
      · rw [List.mem_singleton.mp hother, compare_self]

theorem isLatest_foldl (candidates : List LatestReleaseInfo) :
    IsLatest candidates (candidates.foldl newer none) := by
  induction candidates using List.reverseRecOn with
  | nil => rfl
  | append_singleton candidates info ih =>
    rw [List.foldl_concat]
    exact ih.newer info

/-- A maximal candidate that comes first is kept. -/
theorem foldl_of_maximal {latest : LatestReleaseInfo} {later : List LatestReleaseInfo}
    (h : ∀ info ∈ later, compare info.version latest.version ≤ 0) :
    later.foldl newer (some latest) = some latest := by
  induction later with
  | nil => rfl
  | cons info later ih =>
    obtain ⟨hinfo, hlater⟩ := List.forall_mem_cons.mp h
    rw [List.foldl_cons, newer, Option.any_some, if_pos (decide_eq_true hinfo), ih hlater]

/-- Versions that are found in place of each other. -/
def Same : Option LatestReleaseInfo → Option LatestReleaseInfo → Prop :=
  Option.Rel fun a b => compare a.version b.version = 0

theorem IsLatest.same {as bs : List LatestReleaseInfo} {a b : Option LatestReleaseInfo}
    (hperm : as.Perm bs) (ha : IsLatest as a) (hb : IsLatest bs b) : Same a b := by
  cases a with
  | none =>
    have hnil : as = [] := ha
    subst hnil
    cases b with
    | none => exact .none
    | some b => exact absurd (hperm.mem_iff.mpr hb.1) List.not_mem_nil
  | some a =>
    cases b with
    | none =>
      have hnil : bs = [] := hb
      subst hnil
      exact absurd (hperm.mem_iff.mp ha.1) List.not_mem_nil
    | some b =>
      have hab := hb.2 a (hperm.mem_iff.mp ha.1)
      have hba := ha.2 b (hperm.mem_iff.mpr hb.1)
      rw [compare_swap] at hba
      exact .some (by omega)

/-! ## What the user hears of -/

theorem newerThan_of_le {current : Parts} {latest : LatestReleaseInfo}
    (h : compare latest.version current ≤ 0) : newerThan current (some latest) = none := by
  rw [newerThan, Option.filter_eq_none_iff]
  simpa using h

theorem newerThan_of_not_le {current : Parts} {latest : LatestReleaseInfo}
    (h : ¬compare latest.version current ≤ 0) :
    newerThan current (some latest) = some latest := by
  rw [newerThan, Option.filter_eq_some_iff]
  simpa using h

@[simp] theorem same_none_none : Same none none := .none

@[simp] theorem not_same_some_none (a : LatestReleaseInfo) : ¬Same (some a) none := by
  rintro ⟨⟩

@[simp] theorem not_same_none_some (a : LatestReleaseInfo) : ¬Same none (some a) := by
  rintro ⟨⟩

theorem same_newerThan_iff {current : Parts} {a b : LatestReleaseInfo}
    (hab : compare a.version b.version = 0) :
    Same (newerThan current (some a)) (newerThan current (some b)) ↔
      ¬Detour a.version b.version current ∧ ¬Detour b.version a.version current := by
  have hba : compare b.version a.version = 0 := by rw [compare_swap, hab, neg_zero]
  by_cases ha : compare a.version current ≤ 0 <;> by_cases hb : compare b.version current ≤ 0
  · have hleft := (compare_le_trans_iff hab.le hb).mp ha
    have hright := (compare_le_trans_iff hba.le ha).mp hb
    simp [newerThan_of_le ha, newerThan_of_le hb, hleft, hright]
  · have hright := mt (compare_le_trans_iff hba.le ha).mpr hb
    simp [newerThan_of_le ha, newerThan_of_not_le hb, not_not.mp hright]
  · have hleft := mt (compare_le_trans_iff hab.le hb).mpr ha
    simp [newerThan_of_not_le ha, newerThan_of_le hb, not_not.mp hleft]
  · have hleft : ¬Detour a.version b.version current := fun h => hb h.compare_eq_zero.2.le
    have hright : ¬Detour b.version a.version current := fun h => ha h.compare_eq_zero.2.le
    rw [newerThan_of_not_le ha, newerThan_of_not_le hb]
    exact iff_of_true (.some hab) ⟨hleft, hright⟩

section

variable [Numerals] {options : Options} {releases releases' : List Release}

theorem Readable.perm (hperm : releases'.Perm releases) (h : Readable releases) :
    Readable releases' := fun release hmem => h release (hperm.mem_iff.mp hmem)

theorem retrieveLatestCompatible_eq (h : Readable releases) :
    retrieveLatestCompatible options releases =
      some (newerThan options.version ((candidates options releases).foldl newer none)) := by
  rw [retrieveLatestCompatible, latestCompatible_eq options h, Option.map_some]

/-- A candidate that can come first in the list. -/
theorem exists_first {latest : LatestReleaseInfo}
    (hmax : Maximal (candidates options releases) latest) :
    ∃ releases', releases'.Perm releases ∧
      (candidates options releases').foldl newer none = some latest := by
  obtain ⟨release, hmem, hrelease⟩ := List.mem_filterMap.mp hmax.1
  have hperm : (release :: releases.erase release).Perm releases :=
    (List.perm_cons_erase hmem).symm
  have hcandidates : candidates options (release :: releases.erase release) =
      latest :: candidates options (releases.erase release) := by
    rw [candidates, List.filterMap_cons, hrelease]
    rfl
  refine ⟨_, hperm, ?_⟩
  rw [hcandidates]
  refine foldl_of_maximal fun info hinfo => hmax.2 info ?_
  rw [candidates, ← (hperm.filterMap _).mem_iff]
  change info ∈ candidates options (release :: releases.erase release)
  rw [hcandidates]
  exact List.mem_cons_of_mem _ hinfo

/-- Whatever the order of the releases is, the same version is returned. -/
def Agree (options : Options) (releases : List Release) : Prop :=
  ∀ releases', releases'.Perm releases →
    ∃ found found', retrieveLatestCompatible options releases = some found ∧
      retrieveLatestCompatible options releases' = some found' ∧ Same found found'

/-- Two of the latest versions differ in whether they are newer than the current one. -/
def Torn (current : Parts) (candidates : List LatestReleaseInfo) : Prop :=
  ∃ a b, Maximal candidates a ∧ Maximal candidates b ∧ Detour a.version b.version current

theorem agree_iff (h : Readable releases) :
    Agree options releases ↔ ¬Torn options.version (candidates options releases) := by
  have hlatest := isLatest_foldl (candidates options releases)
  constructor
  · rintro hagree ⟨a, b, ha, hb, hdetour⟩
    obtain ⟨as, has, hfirst⟩ := exists_first ha
    obtain ⟨bs, hbs, hfirst'⟩ := exists_first hb
    obtain ⟨found, founda, hfound, hfounda, hsame⟩ := hagree as has
    obtain ⟨_, foundb, hfound', hfoundb, hsame'⟩ := hagree bs hbs
    obtain rfl := Option.some.inj (hfound.symm.trans hfound')
    have hba : compare b.version options.version ≤ 0 := hdetour.compare_eq_zero.2.le
    have hcurrent : ¬compare a.version options.version ≤ 0 := fun hle =>
      (compare_le_trans_iff hdetour.compare_eq_zero.1.le hba).mp hle hdetour
    rw [retrieveLatestCompatible_eq (h.perm has), hfirst, newerThan_of_not_le hcurrent] at hfounda
    rw [retrieveLatestCompatible_eq (h.perm hbs), hfirst', newerThan_of_le hba] at hfoundb
    obtain rfl := Option.some.inj hfounda
    obtain rfl := Option.some.inj hfoundb
    cases found with
    | none => exact not_same_none_some a hsame
    | some found => exact not_same_some_none found hsame'
  · intro htorn releases' hperm
    refine ⟨_, _, retrieveLatestCompatible_eq h, retrieveLatestCompatible_eq (h.perm hperm), ?_⟩
    have hperm' : (candidates options releases').Perm (candidates options releases) :=
      hperm.filterMap _
    have hlatest' := isLatest_foldl (candidates options releases')
    have hsame := hlatest.same hperm'.symm hlatest'
    revert hlatest hlatest' hsame
    generalize (candidates options releases).foldl newer none = latest
    generalize (candidates options releases').foldl newer none = latest'
    intro hlatest hlatest' hsame
    cases hsame with
    | none => exact .none
    | @some a b hab =>
      have hb : Maximal (candidates options releases) b :=
        ⟨hperm'.mem_iff.mp hlatest'.1, fun info hinfo => hlatest'.2 info (hperm'.mem_iff.mpr hinfo)⟩
      exact (same_newerThan_iff hab).mpr
        ⟨fun hdetour => htorn ⟨a, b, hlatest, hb, hdetour⟩,
          fun hdetour => htorn ⟨b, a, hb, hlatest, hdetour⟩⟩

/-- The order is reflexive and antisymmetric, and transitive but for one detour; the scan finds a
maximal version, in every order of the releases one that compares to it as the same, and only a
detour to the current version makes what is returned depend on the order. -/
theorem order_of_versions : (∀ a, compare a a = 0) ∧ (∀ a b, compare a b = -compare b a) ∧
    (∀ a b c, compare a b ≤ 0 → compare b c ≤ 0 → (compare a c ≤ 0 ↔ ¬Detour a b c)) ∧
    ∀ options releases, Readable releases →
      (∃ latest, latestCompatible options releases = some latest ∧
        IsLatest (candidates options releases) latest ∧
        ∀ releases', releases'.Perm releases →
          ∃ latest', latestCompatible options releases' = some latest' ∧ Same latest latest') ∧
      (Agree options releases ↔ ¬Torn options.version (candidates options releases)) := by
  refine ⟨compare_self, compare_swap, fun a b c => compare_le_trans_iff,
    fun options releases h => ⟨?_, agree_iff h⟩⟩
  refine ⟨_, latestCompatible_eq options h, isLatest_foldl _, fun releases' hperm =>
    ⟨_, latestCompatible_eq options (h.perm hperm), ?_⟩⟩
  exact (isLatest_foldl _).same (hperm.symm.filterMap _) (isLatest_foldl _)

end

/-- Release candidates of one version around an alpha. -/
theorem not_compare_trans : ¬∀ (_ : Numerals) (x y z : String) (a b c : Parts),
    parse x = some a → parse y = some b → parse z = some c → compare a b ≤ 0 →
      compare b c ≤ 0 → compare a c ≤ 0 := by
  intro h
  let part (suffix : String) : Parts :=
    ⟨tonumber ['1'], some (tonumber ['0']), some (tonumber ['0']), some suffix⟩
  have hle : compare (part "-rc2") (part "-rc1") ≤ 0 :=
    h ⟨fun _ => none⟩ "v1.0.0-rc2" "v1.0.0-alpha" "v1.0.0-rc1" _ (part "-alpha") _
      (by decide +kernel) (by decide +kernel) (by decide +kernel) (by decide +kernel)
      (by decide +kernel)
  exact absurd hle (by decide +kernel)

/-- With release candidate 1 as the current version, candidate 2 is found only if it comes before
the alpha. -/
theorem order_of_versions_alpha : ∃ (_ : Numerals) (options : Options) (releases : List Release),
    Readable releases ∧ ¬Agree options releases := by
  let numerals : Numerals := ⟨fun _ => none⟩
  let part (suffix : String) : Parts :=
    ⟨tonumber ['1'], some (tonumber ['0']), some (tonumber ['0']), some suffix⟩
  let options : Options := ⟨part "-rc1", true⟩
  let releases : List Release := [⟨"v1.0.0-rc2", true, 2⟩, ⟨"v1.0.0-alpha", true, 1⟩]
  have hreadable : Readable releases := by decide +kernel
  have horder := (order_of_versions.2.2.2 options releases hreadable).2
  refine ⟨numerals, options, releases, hreadable, fun hagree => horder.mp hagree ?_⟩
  have hcandidates : candidates options releases =
      [⟨part "-rc2", true, 2⟩, ⟨part "-alpha", true, 1⟩] := by decide +kernel
  rw [hcandidates]
  refine ⟨⟨part "-rc2", true, 2⟩, ⟨part "-alpha", true, 1⟩, by decide +kernel, by decide +kernel,
    ⟨rfl, rfl⟩, ⟨"-alpha", by decide +kernel, by decide +kernel⟩, tonumber ['2'], tonumber ['1'],
    ⟨"-rc2", by decide +kernel, by decide +kernel⟩, ⟨"-rc1", by decide +kernel, by decide +kernel⟩,
    by decide +kernel⟩

end Roxo.Plugin.Version
