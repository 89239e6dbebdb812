import Mathlib.Data.ENat.Basic
import Roxo.Library.BinaryFloat
import Roxo.Plugin.AutoConnect

/-!
# Port ranges

The ranges of ports that a text names, and the loop over the ports of a range. The bounds are
doubles, as all numbers of Luau are, so that a loop that gets to numbers that are not told apart
from the next ones never ends.
-/

namespace Roxo.Plugin

namespace Config

structure PortRange where
  min : ℕ
  max : ℕ
  deriving DecidableEq, Repr

def defaultPortRange : PortRange := ⟨34872, 34881⟩

def defaultPortRanges : List PortRange := [⟨34370, 34379⟩, ⟨34872, 34881⟩]

def defaultPortRangeText : String := "34370-34379, 34872-34881"

def legacyPortRangeText : String := "34872-34881"

def maxPortRangeSize : ℕ := 32

/-- How many ports learned from the `peerPorts` of servers are probed per poll. -/
def maxPeerPorts : ℕ := 16

end Config

namespace AutoConnect

open Config BinaryFloat

/-! ## Port ranges -/

/-- The bounds of a range are numbers that `tonumber` makes of digits, or of those and small ones. -/
structure Range where
  low : ℕ∞
  high : ℕ∞
  deriving DecidableEq

def Range.of (range : PortRange) : Range := ⟨range.min, range.max⟩

/-- The double that is nearest to a natural number. From two to the power of 1024 it is infinite. -/
def double (n : ℕ) : ℕ∞ := if (round 52 n).log2 < 1024 then (round 52 n : ℕ) else ⊤

def plus : ℕ∞ → ℕ∞ → ℕ∞
  | some a, some b => double (a + b)
  | _, _ => ⊤

/-- The test `high - low > Config.maxPortRangeSize`. Of two infinities the difference is no number. -/
def isTooWide : ℕ∞ → ℕ∞ → Bool
  | some low, some high => double (high - low) > maxPortRangeSize
  | some _, none => true
  | none, _ => false

/-- The class `%s` of patterns. -/
def isSpace (c : Char) : Bool :=
  c = ' ' ∨ c = '\t' ∨ c = '\n' ∨ c = '\x0b' ∨ c = '\x0c' ∨ c = '\r'

/-- `(%d+)` at the start of a text: the number, and what follows it. -/
def takeNumber (text : List Char) : Option (ℕ∞ × List Char) :=
  match text.span Char.isDigit with
  | ([], _) => none
  | (digits, rest) =>
    some (double (digits.foldl (fun n c => 10 * n + (c.toNat - '0'.toNat)) 0), rest)

/-- The pattern `^%s*(%d+)%s*%-%s*(%d+)%s*$`. -/
def matchRange (text : List Char) : Option (ℕ∞ × ℕ∞) := do
  let (low, rest) ← takeNumber (text.dropWhile isSpace)
  match rest.dropWhile isSpace with
  | '-' :: rest => do
    let (high, rest) ← takeNumber (rest.dropWhile isSpace)
    if rest.all isSpace then some (low, high) else none
  | _ => none

/-- The pattern `^%s*(%d+)%s*$`. -/
def matchSingle (text : List Char) : Option ℕ∞ := do
  let (number, rest) ← takeNumber (text.dropWhile isSpace)
  if rest.all isSpace then some number else none

/-- Parses a port range into its bounds, with the default for what is no range. -/
def parsePortRange (text : List Char) : Range :=
  match (matchRange text).filter fun bounds => bounds.1 ≤ bounds.2 with
  | some (low, high) => ⟨low, if isTooWide low high then plus low maxPortRangeSize else high⟩
  | none =>
    match matchSingle text with
    | some single => ⟨single, single⟩
    | none => .of defaultPortRange

/-- Parses a comma-separated list of ranges. The setting may be missing. -/
def parsePortRanges (text : Option String) : List Range :=
  let text := text.map fun text =>
    if text.toList.filter (!isSpace ·) = legacyPortRangeText.toList then defaultPortRangeText
    else text
  let parts := ((text.map String.toList).getD []).splitOn ','
  let ranges := (parts.filter (!·.isEmpty)).map parsePortRange
  if ranges.isEmpty then defaultPortRanges.map .of else ranges

/-- A bound as a number. -/
def Number.of : ℕ∞ → Number
  | some n => .finite n
  | none => .infinite false

/-- The loop `for port = low, high`, if it has come to its end after so many rounds. -/
def loopPorts (high : ℕ∞) : ℕ → ℕ∞ → Option (List Number)
  | 0, _ => none
  | rounds + 1, port =>
    if port ≤ high then (loopPorts high rounds (plus port (1 : ℕ))).map (.of port :: ·) else some []

/-- The ports of a range. A loop that goes on for longer never ends. -/
def Range.ports (range : Range) : Option (List Number) :=
  loopPorts range.high (maxPortRangeSize + 2) range.low

/-- The ports of ranges, one after the other. -/
def rangePorts : List Range → Option (List Number)
  | [] => some []
  | range :: ranges => do
    let ports ← range.ports
    let rest ← rangePorts ranges
    some (ports ++ rest)

/-! ## Counting in doubles -/

theorem double_of_le {n : ℕ} (h : n ≤ 2 ^ 53) : double n = n := by
  rcases h.lt_or_eq with hlt | rfl
  · have hround : round 52 n = n := round_of_lt hlt
    have hlog : n.log2 < 1024 := by
      rcases Nat.eq_zero_or_pos n with rfl | hpos
      · decide
      · exact ((Nat.log2_lt hpos.ne').mpr hlt).trans (by decide)
    unfold double
    rw [hround, if_pos hlog]
  · decide +kernel

theorem plus_natCast (a b : ℕ) : plus a b = double (a + b) := rfl

/-- The first number that is not told apart from the next one. -/
theorem plus_limit : plus (2 ^ 53 : ℕ) (1 : ℕ) = (2 ^ 53 : ℕ) := by decide +kernel

theorem double_eq_top_or (n : ℕ) : double n = ⊤ ∨ double n = (round 52 n : ℕ) := by
  unfold double
  split_ifs
  · exact .inr rfl
  · exact .inl rfl

/-- Counting on by ones from a large double goes at most one double further. -/
theorem plus_plus {n : ℕ} (h : 2 ^ 53 ≤ n) :
    plus (plus (double n) (1 : ℕ)) (1 : ℕ) = plus (double n) (1 : ℕ) := by
  rcases double_eq_top_or n with htop | hfinite
  · rw [htop]
    rfl
  · rw [hfinite, plus_natCast]
    rcases double_eq_top_or (round 52 n + 1) with htop' | hfinite'
    · rw [htop']
      rfl
    · have hsame : double (round 52 (round 52 n + 1) + 1) = double (round 52 n + 1) := by
        unfold double
        rw [round_succ_succ h]
      rw [hfinite', plus_natCast, hsame, hfinite']

/-! ## The loop -/

section Loop

variable {high port : ℕ∞} {rounds rounds' : ℕ} {ports : List Number}

theorem length_loopPorts (h : loopPorts high rounds port = some ports) : ports.length < rounds := by
  induction rounds generalizing port ports with
  | zero => cases h
  | succ rounds ih =>
    unfold loopPorts at h
    split_ifs at h with hle
    · obtain ⟨rest, hrest, rfl⟩ := Option.map_eq_some_iff.mp h
      exact Nat.succ_lt_succ (ih hrest)
    · cases h
      exact Nat.succ_pos rounds

/-- Among ports that are not too high and that the count does not leave, the loop never ends. -/
theorem loopPorts_eq_none {inside : ℕ∞ → Prop}
    (hinside : ∀ port, inside port → port ≤ high ∧ inside (plus port (1 : ℕ))) (hport : inside port) :
    loopPorts high rounds port = none := by
  induction rounds generalizing port with
  | zero => rfl
  | succ rounds ih =>
    obtain ⟨hle, hnext⟩ := hinside port hport
    unfold loopPorts
    rw [if_pos hle, ih hnext]
    rfl

/-- Where all numbers are told apart the loop goes through the ports of the range. -/
theorem loopPorts_of_lt {low high count : ℕ} (hcount : low + count = high + 1)
    (hhigh : high < 2 ^ 53) (hrounds : count < rounds) :
    loopPorts high rounds low = some ((List.range' low count).map fun n => .finite n) := by
  induction count generalizing low rounds with
  | zero =>
    obtain ⟨rounds, rfl⟩ := Nat.exists_eq_succ_of_ne_zero hrounds.ne'
    unfold loopPorts
    rw [if_neg (by norm_cast; omega)]
    rfl
  | succ count ih =>
    obtain ⟨rounds, rfl⟩ := Nat.exists_eq_succ_of_ne_zero (by omega : rounds ≠ 0)
    have hnext : plus low (1 : ℕ) = (low + 1 : ℕ) := double_of_le (by omega)
    unfold loopPorts
    rw [if_pos (by norm_cast; omega), hnext, ih (by omega) (by omega)]
    rfl

end Loop

/-! ## The ranges of a text -/

/-- What holds of a range that comes from a text. -/
structure Range.Parsed (range : Range) : Prop where
  low_double : ∃ n, range.low = double n
  narrow : ∀ low high : ℕ, range.low = low → range.high = high → high < 2 ^ 53 →
    high ≤ low + maxPortRangeSize

theorem takeNumber_double {text rest : List Char} {number : ℕ∞}
    (h : takeNumber text = some (number, rest)) : ∃ n, number = double n := by
  unfold takeNumber at h
  split at h
  · cases h
  · cases h
    exact ⟨_, rfl⟩

theorem matchRange_double {text : List Char} {bounds : ℕ∞ × ℕ∞} (h : matchRange text = some bounds) :
    ∃ n, bounds.1 = double n := by
  obtain ⟨⟨low, rest⟩, hlow, h⟩ := Option.bind_eq_some_iff.mp h
  obtain ⟨n, rfl⟩ := takeNumber_double hlow
  dsimp only at h
  split at h
  · obtain ⟨⟨high, rest'⟩, -, h⟩ := Option.bind_eq_some_iff.mp h
    dsimp only at h
    split_ifs at h
    cases h
    exact ⟨n, rfl⟩
  · cases h

theorem matchSingle_double {text : List Char} {single : ℕ∞} (h : matchSingle text = some single) :
    ∃ n, single = double n := by
  obtain ⟨⟨number, rest⟩, hnumber, h⟩ := Option.bind_eq_some_iff.mp h
  dsimp only at h
  split_ifs at h
  cases h
  exact takeNumber_double hnumber

/-- A range that is not too wide, or is cut off, is narrow. -/
theorem narrow_of_cut {low high : ℕ} {bound : ℕ∞} (hhigh : high < 2 ^ 53)
    (h : (if isTooWide low bound then plus low maxPortRangeSize else bound) = high) :
    high ≤ low + maxPortRangeSize := by
  split_ifs at h with hwide
  · rw [plus_natCast] at h
    rcases double_eq_top_or (low + maxPortRangeSize) with htop | hfinite
    · rw [htop] at h
      cases h
    · rw [hfinite] at h
      have hround : round 52 (low + maxPortRangeSize) = high := by exact_mod_cast h
      have hlt : low + maxPortRangeSize < 2 ^ 53 := by
        by_contra hge
        have := le_round (not_lt.mp hge)
        omega
      rw [round_of_lt hlt] at hround
      exact hround.ge
  · subst h
    have hdouble : double (high - low) = (high - low : ℕ) := double_of_le (by omega)
    have hnarrow : ¬((high - low : ℕ) : ℕ∞) > maxPortRangeSize := by
      rw [← hdouble]
      exact fun hgt => hwide (decide_eq_true hgt)
    have : high - low ≤ maxPortRangeSize := by exact_mod_cast not_lt.mp hnarrow
    omega

theorem Range.of_parsed {range : PortRange} (hmin : range.min ≤ 2 ^ 53)
    (hmax : range.max ≤ range.min + maxPortRangeSize) : (Range.of range).Parsed where
  low_double := ⟨range.min, (double_of_le hmin).symm⟩
  narrow low high hlow hhigh _ := by
    obtain rfl : range.min = low := ENat.natCast_inj.mp hlow
    obtain rfl : range.max = high := ENat.natCast_inj.mp hhigh
    exact hmax

theorem parsePortRange_parsed (text : List Char) : (parsePortRange text).Parsed := by
  unfold parsePortRange
  split
  · next low high heq =>
    obtain ⟨hmatch, -⟩ := Option.filter_eq_some_iff.mp heq
    refine ⟨matchRange_double hmatch, fun low' high' hlow hhigh hlt => ?_⟩
    obtain rfl : low = low' := hlow
    exact narrow_of_cut hlt hhigh
  · split
    · next single heq =>
      refine ⟨matchSingle_double heq, fun low high hlow hhigh _ => ?_⟩
      have : low = high := by exact_mod_cast hlow.symm.trans hhigh
      omega
    · exact Range.of_parsed (by decide) (by decide)

theorem parsePortRanges_parsed (text : Option String) :
    ∀ range ∈ parsePortRanges text, range.Parsed := by
  intro range hrange
  unfold parsePortRanges at hrange
  dsimp only at hrange
  split_ifs at hrange with hempty
  · obtain ⟨default, hdefault, rfl⟩ := List.mem_map.mp hrange
    have hall : ∀ range ∈ defaultPortRanges,
        range.min ≤ 2 ^ 53 ∧ range.max ≤ range.min + maxPortRangeSize := by decide
    exact Range.of_parsed (hall default hdefault).1 (hall default hdefault).2
  · obtain ⟨part, -, rfl⟩ := List.mem_map.mp hrange
    exact parsePortRange_parsed part

theorem length_ports_le {range : Range} {ports : List Number} (h : range.ports = some ports) :
    ports.length ≤ maxPortRangeSize + 1 :=
  Nat.le_of_lt_succ (length_loopPorts h)

/-- A range of doubles that are told apart has its ports. -/
theorem Range.Parsed.ports_of_lt {range : Range} (h : range.Parsed) {low high : ℕ}
    (hlow : range.low = low) (hhigh : range.high = high) (hlt : high < 2 ^ 53) :
    range.ports = some ((List.range' low (high + 1 - low)).map fun n => .finite n) := by
  have hnarrow := h.narrow low high hlow hhigh hlt
  unfold Range.ports
  rw [hlow, hhigh]
  rcases le_or_gt low (high + 1) with hle | hgt
  · exact loopPorts_of_lt (by omega) hlt (by omega)
  · have hempty : high + 1 - low = 0 := by omega
    unfold loopPorts
    rw [if_neg (by norm_cast; omega), hempty]
    rfl

/-- The loop over a range ends in the rounds that it is given, or never. -/
theorem Range.Parsed.ends {range : Range} (h : range.Parsed) {rounds : ℕ} {ports : List Number}
    (hend : loopPorts range.high rounds range.low = some ports) : range.ports ≠ none := by
  obtain ⟨low, high⟩ := range
  obtain ⟨n, rfl⟩ : ∃ n, low = double n := h.low_double
  -- what has no way out contradicts the end
  have hstays : ∀ inside : ℕ∞ → Prop, inside (double n) →
      ¬∀ port, inside port → port ≤ high ∧ inside (plus port (1 : ℕ)) := by
    intro inside hport hinside
    rw [loopPorts_eq_none hinside hport] at hend
    cases hend
  rcases lt_or_ge high (double n) with hgt | hle
  · unfold Range.ports loopPorts
    rw [if_neg (not_le.mpr hgt)]
    exact Option.some_ne_none _
  rcases double_eq_top_or n with htop | hfinite
  · rw [htop] at hle hstays
    refine absurd (fun port hport => ?_) (hstays (· = ⊤) rfl)
    rw [hport]
    exact ⟨hle, rfl⟩
  rcases lt_or_ge high (2 ^ 53 : ℕ) with hlt | hge
  · obtain ⟨bound, rfl⟩ := ENat.ne_top_iff_exists.mp hlt.ne_top
    rw [h.ports_of_lt hfinite rfl (by exact_mod_cast hlt)]
    exact Option.some_ne_none _
  rcases lt_or_ge n (2 ^ 53) with hsmall | hlarge
  · refine absurd ?_ (hstays (fun port => ∃ i ≤ 2 ^ 53, port = (i : ℕ))
      ⟨n, hsmall.le, double_of_le hsmall.le⟩)
    rintro port ⟨i, hi, rfl⟩
    refine ⟨le_trans (by exact_mod_cast hi) hge, ?_⟩
    rcases hi.lt_or_eq with hi | rfl
    · exact ⟨i + 1, hi, double_of_le hi⟩
    · exact ⟨2 ^ 53, Nat.le_refl _, plus_limit⟩
  · rcases lt_or_ge high (plus (double n) (1 : ℕ)) with hgt | hnext
    · unfold Range.ports loopPorts
      rw [if_pos hle]
      unfold loopPorts
      rw [if_neg (not_le.mpr hgt)]
      exact Option.some_ne_none _
    · refine absurd ?_ (hstays (fun port => port = double n ∨ port = plus (double n) (1 : ℕ))
        (.inl rfl))
      rintro port (rfl | rfl)
      · exact ⟨hle, .inr rfl⟩
      · exact ⟨hnext, .inr (plus_plus hlarge)⟩

theorem rangePorts_eq_some_iff {ranges : List Range} {ports : List Number} :
    rangePorts ranges = some ports ↔ (∀ range ∈ ranges, range.ports ≠ none) ∧
      ports = ranges.flatMap fun range => range.ports.getD [] := by
  induction ranges generalizing ports with
  | nil =>
    constructor
    · rintro ⟨⟩
      exact ⟨fun _ h => absurd h List.not_mem_nil, rfl⟩
    · rintro ⟨-, rfl⟩
      rfl
  | cons range ranges ih =>
    unfold rangePorts
    rw [List.flatMap_cons, List.forall_mem_cons]
    cases hports : range.ports with
    | none => exact iff_of_false nofun fun h => h.1.1 rfl
    | some first =>
      simp only [Option.bind_eq_bind, Option.bind_some, Option.bind_eq_some_iff, ih, Option.getD_some]
      constructor
      · rintro ⟨_, ⟨hall, rfl⟩, ⟨⟩⟩
        exact ⟨⟨Option.some_ne_none _, hall⟩, rfl⟩
      · rintro ⟨⟨-, hall⟩, rfl⟩
        exact ⟨_, ⟨hall, rfl⟩, rfl⟩

theorem length_flatMap_ports_le (ranges : List Range) :
    (ranges.flatMap fun range => range.ports.getD []).length ≤
      ranges.length * (maxPortRangeSize + 1) := by
  induction ranges with
  | nil => exact Nat.zero_le _
  | cons range ranges ih =>
    have hrange : (range.ports.getD []).length ≤ maxPortRangeSize + 1 := by
      cases hports : range.ports with
      | none => exact Nat.zero_le _
      | some ports => exact length_ports_le hports
    rw [List.flatMap_cons, List.length_append, List.length_cons, Nat.add_one_mul]
    omega

end AutoConnect

end Roxo.Plugin
