import Mathlib.Data.List.Basic

/-!
# Lowercase texts

`lowercase` turns a text into lowercase the way the standard library of the program does: every
character by itself, except that a capital sigma at the end of a word becomes a final one. A sigma
ends a word when a cased letter stands before it and none after it, characters that case ignores
left out of account. What Unicode says about single characters is a parameter.
-/

namespace Lowercase

/-- What Unicode says about the case of characters. -/
class CaseTables where
  /-- `char::to_lowercase`. -/
  toLower : Char → List Char
  caseIgnorable : Char → Bool
  cased : Char → Bool

/-- Only the letters of ASCII have a case: tables to evaluate with. -/
@[reducible] def CaseTables.ascii : CaseTables where
  toLower c := [c.toLower]
  caseIgnorable c := c == '.'
  cased c := c.isAlpha

section Tables

variable [CaseTables]

def caseIgnorableThenCased (chars : List Char) : Bool :=
  match chars.dropWhile CaseTables.caseIgnorable with
  | c :: _ => CaseTables.cased c
  | [] => false

/-- What becomes of a capital sigma, given what stands before it, backwards, and after it. -/
def mapUppercaseSigma (before after : List Char) : Char :=
  if caseIgnorableThenCased before ∧ ¬ caseIgnorableThenCased after then 'ς' else 'σ'

def lowerChar (before : List Char) (c : Char) (after : List Char) : List Char :=
  if c = 'Σ' then [mapUppercaseSigma before after] else CaseTables.toLower c

/-- The loop over the characters of a text that is followed by another one. -/
def lowerLoop (before : List Char) : List Char → List Char → List Char
  | [], _ => []
  | c :: cs, after => lowerChar before c (cs ++ after) ++ lowerLoop (c :: before) cs after

/-- `str::to_lowercase`. -/
def lowercase (s : String) : String := String.ofList (lowerLoop [] s.toList [])

end Tables

end Lowercase
