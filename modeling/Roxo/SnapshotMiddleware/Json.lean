import Mathlib.Algebra.Field.Rat
import Mathlib.Algebra.Order.Field.Basic
import Roxo.Snapshot.Variant

/-!
# JSON values

What `serde_json` reads and writes. The entries of an object stand in the order of the text, where
a key can occur more than once.
-/

namespace Roxo

/-- The number that a float stands for, unless it is infinite or not a number. -/
def F64.toRat (a : F64) : ℚ :=
  let fraction := (a.bits.extractLsb' 0 52).toNat
  let exponent := (a.bits.extractLsb' 52 11).toNat
  let magnitude : ℚ :=
    if exponent = 0 then fraction * 2 ^ (-1074 : ℤ)
    else (2 ^ 52 + fraction) * 2 ^ ((exponent : ℤ) - 1075)
  if a.bits.msb then -magnitude else magnitude

/-- `serde_json::Number`. -/
inductive JsonNumber where
  | posInt (n : UInt64)
  /-- A negative integer. -/
  | negInt (n : Int64)
  /-- Anything else, which is finite. -/
  | float (n : F64)
  deriving DecidableEq, Repr

/-- `serde_json::Value`. -/
inductive Json where
  | null
  | bool (b : Bool)
  | number (n : JsonNumber)
  | string (s : String)
  | array (items : List Json)
  | object (entries : List (String × Json))

namespace Json

/-- `Value::get`. A `Value` keeps the last entry with a key. -/
def get (value : Json) (key : String) : Option Json :=
  match value with
  | object entries => (entries.reverse.find? fun entry => entry.1 = key).map Prod.snd
  | _ => none

def asU64 : Json → Option UInt64
  | number (.posInt n) => some n
  | _ => none

def asStr : Json → Option String
  | string s => some s
  | _ => none

def asBool : Json → Option Bool
  | bool b => some b
  | _ => none

end Json

def JsonNumber.toRat : JsonNumber → ℚ
  | posInt n => n.toNat
  | negInt n => n.toInt
  | float n => n.toRat

/-- The value is the number of the port. -/
def Json.Names (value : Json) (port : UInt16) : Prop :=
  ∃ n, value = .number n ∧ n.toRat = port.toNat

end Roxo
