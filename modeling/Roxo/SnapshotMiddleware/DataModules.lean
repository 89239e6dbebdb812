import Roxo.SnapshotMiddleware.FloatText

/-!
# Data modules

Module scripts that return the data of a JSON, TOML or YAML file.
-/

namespace Roxo

/-! ## Numbers -/

variable [FloatText]

def LuaNumber.ofF64 (a : F64) : LuaNumber :=
  if a.isFinite then .finite (FloatText.display a)
  else if a.bits.extractLsb' 0 52 = 0#52 then .infinite (!a.bits.msb)
  else .nan

/-- An integer is converted `as f64`. -/
def LuaNumber.ofInt (n : ℤ) : LuaNumber := .ofF64 (F64.ofInt n)

/-! ## JSON -/

/-- `Number::as_f64`, which is there for every number. -/
def JsonNumber.asF64 : JsonNumber → LuaNumber
  | posInt n => .ofInt n.toNat
  | negInt n => .ofInt n.toInt
  | float a => .ofF64 a

mutual

def jsonToLuaValue : Json → Expression
  | .null => .nil
  | .bool b => .bool b
  | .number n => .number n.asF64
  | .string s => .string s
  | .array items => .array (jsonItems items)
  | .object entries => .table (jsonEntries entries)

def jsonItems : List Json → List Expression
  | [] => []
  | item :: items => jsonToLuaValue item :: jsonItems items

def jsonEntries : List (String × Json) → List (Expression × Expression)
  | [] => []
  | (key, value) :: entries => (.string key, jsonToLuaValue value) :: jsonEntries entries

end

def jsonToLua (value : Json) : Statement := .ret (jsonToLuaValue value)

/-! ## TOML -/

/-- `toml::Value`, with a date by its text. -/
inductive Toml where
  | string (s : String)
  | integer (n : Int64)
  | float (a : F64)
  | boolean (b : Bool)
  | datetime (text : String)
  | array (items : List Toml)
  | table (entries : List (String × Toml))

mutual

def tomlToLuaValue : Toml → Expression
  | .datetime text => .string text
  | .boolean b => .bool b
  | .float a => .number (.ofF64 a)
  | .integer n => .number (.ofInt n.toInt)
  | .string s => .string s
  | .array items => .array (tomlItems items)
  | .table entries => .table (tomlEntries entries)

def tomlItems : List Toml → List Expression
  | [] => []
  | item :: items => tomlToLuaValue item :: tomlItems items

def tomlEntries : List (String × Toml) → List (Expression × Expression)
  | [] => []
  | (key, value) :: entries => (.string key, tomlToLuaValue value) :: tomlEntries entries

end

def tomlToLua (value : Toml) : Statement := .ret (tomlToLuaValue value)

/-! ## YAML -/

/-- `yaml_rust2::Yaml`, with a real number by what its `as_f64` reads. -/
inductive Yaml where
  | real (a : F64)
  | integer (n : Int64)
  | string (s : String)
  | boolean (b : Bool)
  | array (items : List Yaml)
  | hash (entries : List (Yaml × Yaml))
  | aliased (n : ℕ)
  | null
  | badValue

def maxFloatInt : ℤ := 2 ^ 53

mutual

def yamlToLuau : Yaml → Except String Expression
  | .string s => .ok (.string s)
  | .boolean b => .ok (.bool b)
  | .integer n =>
    if n.toInt ≤ maxFloatInt then .ok (.number (.ofInt n.toInt))
    else .error ("the integer '" ++ toString n ++
      "' cannot be losslessly converted into a Luau number")
  | .real a => .ok (.number (.ofF64 a))
  | .null => .ok .nil
  | .array values => (yamlItems values).map .array
  | .hash entries => (yamlEntries entries).map .table
  | .aliased _ => .error "Rojo cannot convert YAML aliases to Luau"
  | .badValue => .error "Rojo cannot convert YAML to Luau because of a parsing error"

def yamlItems : List Yaml → Except String (List Expression)
  | [] => .ok []
  | value :: values => do
    let value ← yamlToLuau value
    let values ← yamlItems values
    .ok (value :: values)

def yamlEntries : List (Yaml × Yaml) → Except String (List (Expression × Expression))
  | [] => .ok []
  | (key, value) :: entries => do
    let key ← yamlToLuau key
    let value ← yamlToLuau value
    let entries ← yamlEntries entries
    .ok ((key, value) :: entries)

end

/-! ## What the files hold -/

/-- An integer of 64 bits, with a sign or without. -/
structure Integer64 where
  value : ℤ
  natAbs_lt : value.natAbs < 2 ^ 64

def Integer64.ofInt64 (n : Int64) : Integer64 :=
  ⟨n.toInt, by have := n.le_toInt; have := n.toInt_lt; omega⟩

def Integer64.ofUInt64 (n : UInt64) : Integer64 := ⟨n.toNat, by have := n.toNat_lt; omega⟩

/-- The data of a file. -/
inductive Data where
  | null
  | bool (b : Bool)
  | integer (n : Integer64)
  | real (a : F64)
  | string (s : String)
  | array (items : List Data)
  | table (entries : List (Data × Data))

def JsonNumber.data : JsonNumber → Data
  | posInt n => .integer (.ofUInt64 n)
  | negInt n => .integer (.ofInt64 n)
  | float a => .real a

mutual

def Json.data : Json → Data
  | null => .null
  | bool b => .bool b
  | number n => n.data
  | string s => .string s
  | array items => .array (Json.dataItems items)
  | object entries => .table (Json.dataEntries entries)

def Json.dataItems : List Json → List Data
  | [] => []
  | item :: items => item.data :: Json.dataItems items

def Json.dataEntries : List (String × Json) → List (Data × Data)
  | [] => []
  | (key, value) :: entries => (.string key, value.data) :: Json.dataEntries entries

end

mutual

def Toml.data : Toml → Data
  | datetime text => .string text
  | boolean b => .bool b
  | float a => .real a
  | integer n => .integer (.ofInt64 n)
  | string s => .string s
  | array items => .array (Toml.dataItems items)
  | table entries => .table (Toml.dataEntries entries)

def Toml.dataItems : List Toml → List Data
  | [] => []
  | item :: items => item.data :: Toml.dataItems items

def Toml.dataEntries : List (String × Toml) → List (Data × Data)
  | [] => []
  | (key, value) :: entries => (.string key, value.data) :: Toml.dataEntries entries

end

mutual

/-- An alias and a bad value hold nothing: they are not converted. -/
def Yaml.data : Yaml → Data
  | string s => .string s
  | boolean b => .bool b
  | integer n => .integer (.ofInt64 n)
  | real a => .real a
  | null | aliased _ | badValue => .null
  | array items => .array (Yaml.dataItems items)
  | hash entries => .table (Yaml.dataEntries entries)

def Yaml.dataItems : List Yaml → List Data
  | [] => []
  | item :: items => item.data :: Yaml.dataItems items

def Yaml.dataEntries : List (Yaml × Yaml) → List (Data × Data)
  | [] => []
  | (key, value) :: entries => (key.data, value.data) :: Yaml.dataEntries entries

end

/-! ## What becomes of the data -/

mutual

def Data.expression : Data → Expression
  | null => .nil
  | bool b => .bool b
  | integer n => .number (.ofInt n.value)
  | real a => .number (.ofF64 a)
  | string s => .string s
  | array items => .array (Data.expressionItems items)
  | table entries => .table (Data.expressionEntries entries)

def Data.expressionItems : List Data → List Expression
  | [] => []
  | item :: items => item.expression :: Data.expressionItems items

def Data.expressionEntries : List (Data × Data) → List (Expression × Expression)
  | [] => []
  | (key, value) :: entries => (key.expression, value.expression) :: Data.expressionEntries entries

end

mutual

theorem jsonToLuaValue_eq : ∀ value : Json, jsonToLuaValue value = value.data.expression
  | .null => rfl
  | .bool _ => rfl
  | .number (.posInt _) => rfl
  | .number (.negInt _) => rfl
  | .number (.float _) => rfl
  | .string _ => rfl
  | .array items => congrArg Expression.array (jsonItems_eq items)
  | .object entries => congrArg Expression.table (jsonEntries_eq entries)

theorem jsonItems_eq : ∀ items : List Json,
    jsonItems items = Data.expressionItems (Json.dataItems items)
  | [] => rfl
  | item :: items => congrArg₂ List.cons (jsonToLuaValue_eq item) (jsonItems_eq items)

theorem jsonEntries_eq : ∀ entries : List (String × Json),
    jsonEntries entries = Data.expressionEntries (Json.dataEntries entries)
  | [] => rfl
  | (key, value) :: entries => by
    unfold jsonEntries Json.dataEntries Data.expressionEntries
    rw [jsonToLuaValue_eq value, jsonEntries_eq entries]
    rfl

end

mutual

theorem tomlToLuaValue_eq : ∀ value : Toml, tomlToLuaValue value = value.data.expression
  | .string _ => rfl
  | .integer _ => rfl
  | .float _ => rfl
  | .boolean _ => rfl
  | .datetime _ => rfl
  | .array items => congrArg Expression.array (tomlItems_eq items)
  | .table entries => congrArg Expression.table (tomlEntries_eq entries)

theorem tomlItems_eq : ∀ items : List Toml,
    tomlItems items = Data.expressionItems (Toml.dataItems items)
  | [] => rfl
  | item :: items => congrArg₂ List.cons (tomlToLuaValue_eq item) (tomlItems_eq items)

theorem tomlEntries_eq : ∀ entries : List (String × Toml),
    tomlEntries entries = Data.expressionEntries (Toml.dataEntries entries)
  | [] => rfl
  | (key, value) :: entries => by
    unfold tomlEntries Toml.dataEntries Data.expressionEntries
    rw [tomlToLuaValue_eq value, tomlEntries_eq entries]
    rfl

end

omit [FloatText] in
theorem bind_eq_ok {ε α β : Type} {x : Except ε α} {f : α → Except ε β} {b : β}
    (h : x >>= f = .ok b) : ∃ a, x = .ok a ∧ f a = .ok b := by
  cases x with
  | error e => cases h
  | ok a => exact ⟨a, rfl, h⟩

omit [FloatText] in
theorem map_eq_ok {ε α β : Type} {x : Except ε α} {f : α → β} {b : β}
    (h : x.map f = .ok b) : ∃ a, x = .ok a ∧ f a = b := by
  cases x with
  | error e => cases h
  | ok a => exact ⟨a, rfl, Except.ok.inj h⟩

mutual

theorem yamlToLuau_eq : ∀ {value : Yaml} {e : Expression}, yamlToLuau value = .ok e →
    e = value.data.expression
  | .string _, _, h => (Except.ok.inj h).symm
  | .boolean _, _, h => (Except.ok.inj h).symm
  | .integer n, e, h => by
    unfold yamlToLuau at h
    split_ifs at h
    exact (Except.ok.inj h).symm
  | .real _, _, h => (Except.ok.inj h).symm
  | .null, _, h => (Except.ok.inj h).symm
  | .array values, e, h => by
    obtain ⟨items, hitems, rfl⟩ := map_eq_ok h
    exact congrArg Expression.array (yamlItems_eq hitems)
  | .hash entries, e, h => by
    obtain ⟨pairs, hpairs, rfl⟩ := map_eq_ok h
    exact congrArg Expression.table (yamlEntries_eq hpairs)

theorem yamlItems_eq : ∀ {values : List Yaml} {items : List Expression},
    yamlItems values = .ok items → items = Data.expressionItems (Yaml.dataItems values)
  | [], _, h => (Except.ok.inj h).symm
  | value :: values, _, h => by
    obtain ⟨item, hitem, h⟩ := bind_eq_ok h
    obtain ⟨items, hitems, h⟩ := bind_eq_ok h
    rw [← Except.ok.inj h, yamlToLuau_eq hitem, yamlItems_eq hitems]
    rfl

theorem yamlEntries_eq : ∀ {entries : List (Yaml × Yaml)} {pairs : List (Expression × Expression)},
    yamlEntries entries = .ok pairs → pairs = Data.expressionEntries (Yaml.dataEntries entries)
  | [], _, h => (Except.ok.inj h).symm
  | (key, value) :: entries, _, h => by
    obtain ⟨k, hk, h⟩ := bind_eq_ok h
    obtain ⟨v, hv, h⟩ := bind_eq_ok h
    obtain ⟨pairs, hpairs, h⟩ := bind_eq_ok h
    rw [← Except.ok.inj h, yamlToLuau_eq hk, yamlToLuau_eq hv, yamlEntries_eq hpairs]
    rfl

end

end Roxo
