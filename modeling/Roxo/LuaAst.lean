import Mathlib.Data.Int.Notation
import Roxo.Library.Luau

/-!
# The Lua syntax tree

A small Lua AST for simple codegen, and the stream that pretty-prints it. Finite numbers are taken
as the decimal numbers that are written for them.
-/

namespace Roxo

/-- A finite float as it is displayed: digits, and a fraction where there is one. -/
structure Decimal where
  negative : Bool
  whole : List Char
  fraction : List Char
  whole_ne_nil : whole ≠ []
  whole_digits : ∀ c ∈ whole, c.isDigit = true
  fraction_digits : ∀ c ∈ fraction, c.isDigit = true

/-- The digits behind the sign. -/
def Decimal.magnitude (d : Decimal) : List Char :=
  d.whole ++ if d.fraction = [] then [] else '.' :: d.fraction

def Decimal.display (d : Decimal) : List Char :=
  (if d.negative then ['-'] else []) ++ d.magnitude

/-- An `f64` by its category. -/
inductive LuaNumber where
  | nan
  | infinite (positive : Bool)
  | finite (d : Decimal)

inductive Expression where
  | nil
  | bool (b : Bool)
  | number (n : LuaNumber)
  | string (s : String)
  | table (entries : List (Expression × Expression))
  | array (values : List Expression)

inductive Statement where
  | ret (literal : Expression)

/-! ## The stream -/

/-- Tracks the indentation of what is written to `inner`. -/
structure LuaStream where
  indentLevel : ℕ
  isStartOfLine : Bool
  inner : List Char

namespace LuaStream

def new : LuaStream := ⟨0, true, []⟩

def line (out : LuaStream) : LuaStream :=
  { out with isStartOfLine := true, inner := out.inner ++ ['\n'] }

/-- Write what stands on one line, behind the indentation where the line begins. -/
def writeLine (out : LuaStream) (line : List Char) : LuaStream :=
  if line = [] then out
  else
    let indentation := if out.isStartOfLine then List.replicate out.indentLevel '\t' else []
    { out with isStartOfLine := false, inner := out.inner ++ indentation ++ line }

def writeStr (out : LuaStream) (value : List Char) : LuaStream :=
  match value.splitOn '\n' with
  | [] => out
  | first :: lines => lines.foldl (fun out line => out.line.writeLine line) (out.writeLine first)

def indent (out : LuaStream) : LuaStream := { out with indentLevel := out.indentLevel + 1 }

/-- Panics unless something is indented. -/
def unindent (out : LuaStream) : Option LuaStream :=
  if out.indentLevel > 0 then some { out with indentLevel := out.indentLevel - 1 } else none

end LuaStream

/-! ## Formatting -/

def isValidIdentCharStart (c : Char) : Bool := c.isAlpha || c = '_'

def isValidIdentChar (c : Char) : Bool := c.isAlphanum || c = '_'

def isKeyword (value : String) : Bool :=
  value ∈ ["and", "break", "do", "else", "elseif", "end", "false", "for", "function", "if", "in",
    "local", "nil", "not", "or", "repeat", "return", "then", "true", "until", "while"]

def isValidIdent (value : String) : Bool :=
  !isKeyword value &&
    match value.toList with
    | first :: chars => isValidIdentCharStart first && chars.all isValidIdentChar
    | [] => false

/-- `LuaEscape`, for one character. -/
def luaEscape (c : Char) : List Char :=
  if c = '"' then ['\\', '"']
  else if c = '\r' then ['\\', 'r']
  else if c = '\n' then ['\\', 'n']
  else if c = '\t' then ['\\', 't']
  else if c = '\\' then ['\\', '\\']
  else [c]

def LuaNumber.fmtLua (n : LuaNumber) (out : LuaStream) : LuaStream :=
  match n with
  | nan => out.writeStr "0/0".toList
  | infinite true => out.writeStr "math.huge".toList
  | infinite false => out.writeStr "-math.huge".toList
  | finite d => out.writeStr d.display

/-- The characters are written one by one. -/
def fmtEscaped (s : String) (out : LuaStream) : LuaStream :=
  s.toList.foldl (fun out c => out.writeStr (luaEscape c)) out

def fmtString (s : String) (out : LuaStream) : LuaStream :=
  (fmtEscaped s (out.writeStr ['"'])).writeStr ['"']

/-- How a value appears as a table key. A nil key panics. -/
def fmtTableKey (fmtLua : LuaStream → Option LuaStream) (key : Expression) (out : LuaStream) :
    Option LuaStream :=
  match key with
  | .nil => none
  | .string s =>
    if isValidIdent s then some (out.writeStr s.toList)
    else some ((fmtEscaped s (out.writeStr ['[', '"'])).writeStr ['"', ']'])
  | _ => do
    let out ← fmtLua (out.writeStr ['['])
    some (out.writeStr [']'])

mutual

def fmtLua : Expression → LuaStream → Option LuaStream
  | .nil, out => some (out.writeStr "nil".toList)
  | .bool b, out => some (out.writeStr (toString b).toList)
  | .number n, out => some (n.fmtLua out)
  | .string s, out => some (fmtString s out)
  | .table entries, out => do
    let out ← fmtEntries entries (out.writeStr ['{', '\n']).indent
    let out ← out.unindent
    some (out.writeStr ['}'])
  | .array values, out => do
    let out ← fmtValues values (out.writeStr ['{'])
    some (out.writeStr ['}'])

def fmtEntries : List (Expression × Expression) → LuaStream → Option LuaStream
  | [], out => some out
  | (key, value) :: entries, out => do
    let out ← fmtTableKey (fmtLua key) key out
    let out ← fmtLua value (out.writeStr " = ".toList)
    fmtEntries entries (out.writeStr [',', '\n'])

def fmtValues : List Expression → LuaStream → Option LuaStream
  | [], out => some out
  | value :: values, out => do
    let out ← fmtLua value out
    fmtValues values (if values = [] then out else out.writeStr ", ".toList)

end

/-- The text of a statement, unless writing it panics. -/
def Statement.toText : Statement → Option (List Char)
  | .ret literal => (fmtLua literal (LuaStream.new.writeStr "return ".toList)).map LuaStream.inner

end Roxo
