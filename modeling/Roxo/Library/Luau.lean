import Mathlib.Data.List.Basic

/-!
# Data in Luau

The part of Luau that a module with data is written in: words, numbers, quoted strings, table
constructors and one `return` statement. Comments, operators other than a minus sign and the other
kinds of quotes are not read.
-/

namespace Luau

/-! ## Tokens -/

inductive Token where
  | word (chars : List Char)
  | number (whole fraction : List Char)
  | string (chars : List Char)
  | symbol (c : Char)
  deriving DecidableEq, Repr

/-- Where the lexer stands, with what it has read of a token. -/
inductive Mode where
  | between
  | word (read : List Char)
  | number (read : List Char)
  | string (read : List Char)
  | escape (read : List Char)

def isSpace (c : Char) : Bool := c = ' ' || c = '\t' || c = '\n' || c = '\r'

def isWordStart (c : Char) : Bool := c.isAlpha || c = '_'

def isWordChar (c : Char) : Bool := c.isAlphanum || c = '_'

def isNumberChar (c : Char) : Bool := c.isAlphanum || c = '_' || c = '.'

def symbols : List Char := ['{', '}', '[', ']', '=', ',', '-']

/-- A decimal number. -/
def numberToken (chars : List Char) : Option Token :=
  match chars.dropWhile Char.isDigit with
  | [] => some (.number (chars.takeWhile Char.isDigit) [])
  | '.' :: fraction =>
    if fraction ≠ [] ∧ fraction.all Char.isDigit then
      some (.number (chars.takeWhile Char.isDigit) fraction)
    else none
  | _ => none

/-- What a character stands for behind a backslash. -/
def unescape : Char → Option Char
  | 'n' => some '\n'
  | 'r' => some '\r'
  | 't' => some '\t'
  | '\\' => some '\\'
  | '"' => some '"'
  | _ => none

/-- The first character of a token. -/
def start (c : Char) : Option (List Token × Mode) :=
  if isSpace c then some ([], .between)
  else if c = '"' then some ([], .string [])
  else if c.isDigit then some ([], .number [c])
  else if isWordStart c then some ([], .word [c])
  else if c ∈ symbols then some ([.symbol c], .between)
  else none

/-- The token that ends where the lexer stands. A string that has not been closed is broken. -/
def flush : Mode → Option (List Token)
  | .between => some []
  | .word read => some [.word read]
  | .number read => (numberToken read).map fun token => [token]
  | .string _ | .escape _ => none

/-- One character. A quoted string is broken by a line break and by a zero. -/
def step : Mode → Char → Option (List Token × Mode)
  | .between, c => start c
  | .word read, c =>
    if isWordChar c then some ([], .word (read ++ [c]))
    else (start c).map fun (tokens, mode) => (.word read :: tokens, mode)
  | .number read, c =>
    if isNumberChar c then some ([], .number (read ++ [c]))
    else (numberToken read).bind fun token =>
      (start c).map fun (tokens, mode) => (token :: tokens, mode)
  | .string read, c =>
    if c = '"' then some ([.string read], .between)
    else if c = '\\' then some ([], .escape read)
    else if c = '\n' ∨ c = '\r' ∨ c = Char.ofNat 0 then none
    else some ([], .string (read ++ [c]))
  | .escape read, c => (unescape c).map fun c => ([], .string (read ++ [c]))

def lexFrom : Mode → List Char → Option (List Token)
  | mode, [] => flush mode
  | mode, c :: rest =>
    (step mode c).bind fun (tokens, mode) => (lexFrom mode rest).map fun later => tokens ++ later

/-- The tokens of a text. -/
def lex (text : List Char) : Option (List Token) := lexFrom .between text

/-! ## Values -/

inductive Value where
  | nil
  | bool (b : Bool)
  | number (negative : Bool) (whole fraction : List Char)
  | string (chars : List Char)
  | table (items : List Value) (entries : List (Value × Value))

inductive Field where
  | item (value : Value)
  | entry (key value : Value)

def Field.item? : Field → Option Value
  | item value => some value
  | entry _ _ => none

def Field.entry? : Field → Option (Value × Value)
  | item _ => none
  | entry key value => some (key, value)

def Value.ofFields (fields : List Field) : Value :=
  table (fields.filterMap Field.item?) (fields.filterMap Field.entry?)

/-- The reserved words. -/
def keywords : List String :=
  ["and", "break", "do", "else", "elseif", "end", "false", "for", "function", "if", "in", "local",
    "nil", "not", "or", "repeat", "return", "then", "true", "until", "while"]

def isKeyword (chars : List Char) : Bool := keywords.any fun word => word.toList = chars

/-- One field of a table constructor. -/
def parseField (parseExp : List Token → Option (Value × List Token)) (tokens : List Token) :
    Option (Field × List Token) :=
  match tokens with
  | .symbol '[' :: rest => do
    let (key, rest) ← parseExp rest
    match rest with
    | .symbol ']' :: .symbol '=' :: rest =>
      let (value, rest) ← parseExp rest
      some (.entry key value, rest)
    | _ => none
  | .word name :: .symbol '=' :: rest =>
    if isKeyword name then none
    else do
      let (value, rest) ← parseExp rest
      some (.entry (.string name) value, rest)
  | tokens => do
    let (value, rest) ← parseExp tokens
    some (.item value, rest)

mutual

def parseExp : ℕ → List Token → Option (Value × List Token)
  | 0, _ => none
  | fuel + 1, tokens =>
    match tokens with
    | .word word :: rest =>
      if word = "nil".toList then some (.nil, rest)
      else if word = "true".toList then some (.bool true, rest)
      else if word = "false".toList then some (.bool false, rest)
      else none
    | .number whole fraction :: rest => some (.number false whole fraction, rest)
    | .symbol '-' :: .number whole fraction :: rest => some (.number true whole fraction, rest)
    | .string chars :: rest => some (.string chars, rest)
    | .symbol '{' :: rest => do
      let (fields, rest) ← parseFields fuel rest
      some (.ofFields fields, rest)
    | _ => none

/-- The fields of a table constructor, with the brace that closes it. -/
def parseFields : ℕ → List Token → Option (List Field × List Token)
  | 0, _ => none
  | fuel + 1, tokens =>
    match tokens with
    | .symbol '}' :: rest => some ([], rest)
    | tokens => do
      let (field, rest) ← parseField (parseExp fuel) tokens
      match rest with
      | .symbol ',' :: rest =>
        let (fields, rest) ← parseFields fuel rest
        some (field :: fields, rest)
      | .symbol '}' :: rest => some ([field], rest)
      | _ => none

end

/-- The value of a module that is one `return` statement. -/
def load (text : List Char) : Option Value := do
  let tokens ← lex text
  match tokens with
  | .word word :: rest =>
    if word = "return".toList then
      let (value, rest) ← parseExp (rest.length + 1) rest
      if rest = [] then some value else none
    else none
  | _ => none

theorem load_eq_some {text : List Char} {tokens : List Token} {value : Value}
    (hlex : lex text = some (.word "return".toList :: tokens))
    (hparse : parseExp (tokens.length + 1) tokens = some (value, [])) : load text = some value := by
  unfold load
  rw [hlex, Option.bind_eq_bind, Option.bind_some]
  dsimp only
  rw [if_pos rfl, hparse]
  rfl

theorem load_eq_none {text : List Char} (h : lex text = none) : load text = none := by
  unfold load
  rw [h]
  rfl

/-! ## Parsing field by field -/

theorem parseField_bracket {parseExp : List Token → Option (Value × List Token)}
    {tokens later rest : List Token} {key value : Value}
    (hkey : parseExp (tokens ++ .symbol ']' :: .symbol '=' :: later) =
      some (key, .symbol ']' :: .symbol '=' :: later))
    (hvalue : parseExp later = some (value, rest)) :
    parseField parseExp (.symbol '[' :: (tokens ++ .symbol ']' :: .symbol '=' :: later)) =
      some (.entry key value, rest) := by
  unfold parseField
  simp only [hkey, hvalue, Option.bind_eq_bind, Option.bind_some]

theorem parseField_name {parseExp : List Token → Option (Value × List Token)}
    {later rest : List Token} {name : List Char} {value : Value} (hname : isKeyword name = false)
    (hvalue : parseExp later = some (value, rest)) :
    parseField parseExp (.word name :: .symbol '=' :: later) =
      some (.entry (.string name) value, rest) := by
  unfold parseField
  simp only [hname, hvalue, Option.bind_eq_bind, Option.bind_some]
  rfl

section Fields

variable {fuel : ℕ} {tokens later : List Token} {field : Field}

theorem parseFields_comma (hopen : tokens.head? ≠ some (.symbol '}'))
    (h : parseField (parseExp fuel) tokens = some (field, .symbol ',' :: later)) :
    parseFields (fuel + 1) tokens =
      (parseFields fuel later).map fun p => (field :: p.1, p.2) := by
  conv_lhs => unfold parseFields
  split
  · exact absurd rfl hopen
  · rw [h, Option.bind_eq_bind, Option.bind_some]
    change ((parseFields fuel later).bind fun p => some (field :: p.1, p.2)) = _
    cases parseFields fuel later <;> rfl

theorem parseFields_close (hopen : tokens.head? ≠ some (.symbol '}'))
    (h : parseField (parseExp fuel) tokens = some (field, .symbol '}' :: later)) :
    parseFields (fuel + 1) tokens = some ([field], later) := by
  unfold parseFields
  split
  · exact absurd rfl hopen
  · rw [h]
    rfl

end Fields

/-! ## Lexing a text piece by piece -/

/-- Nothing that goes on with a word or a number comes next. -/
def Delimited (rest : List Char) : Prop := ∀ c ∈ rest.head?, isNumberChar c = false

/-- The text stands for the tokens, if any, whatever comes behind it. -/
def Lexes (text : List Char) (tokens : Option (List Token)) : Prop :=
  ∀ rest, Delimited rest → lexFrom .between (text ++ rest) =
    tokens.bind fun tokens => (lexFrom .between rest).map fun later => tokens ++ later

/-- One piece of a text behind another. -/
def join (first second : Option (List Token)) : Option (List Token) :=
  first.bind fun first => second.map fun second => first ++ second

def symbolThen (c : Char) (later : Option (List Token)) : Option (List Token) :=
  later.map fun later => .symbol c :: later

theorem isWordChar_of_isNumberChar {c : Char} (h : isNumberChar c = false) :
    isWordChar c = false := by
  unfold isNumberChar at h
  exact (Bool.or_eq_false_iff.mp h).1

theorem lexFrom_of_step {mode mode' : Mode} {c : Char} {tokens : List Token}
    (h : step mode c = some (tokens, mode')) (rest : List Char) :
    lexFrom mode (c :: rest) = (lexFrom mode' rest).map fun later => tokens ++ later := by
  conv_lhs => unfold lexFrom
  rw [h, Option.bind_some]

theorem Lexes.nil : Lexes [] (some []) := by
  intro rest _
  rw [Option.bind_some]
  exact Option.map_id'.symm

theorem Lexes.append {a b : List Char} {as bs : Option (List Token)} (ha : Lexes a as)
    (hb : Lexes b bs) (hd : ∀ rest, Delimited rest → Delimited (b ++ rest)) :
    Lexes (a ++ b) (join as bs) := by
  intro rest hrest
  unfold join
  rw [List.append_assoc, ha _ (hd rest hrest), hb rest hrest]
  cases as with
  | none => rfl
  | some as =>
    cases bs with
    | none => rfl
    | some bs =>
      simp only [Option.bind_some, Option.map_some, Option.map_map, Function.comp_def,
        List.append_assoc]

/-- White space is skipped. -/
theorem Lexes.space {c : Char} (hc : isSpace c = true) {text : List Char}
    {tokens : Option (List Token)} (h : Lexes text tokens) : Lexes (c :: text) tokens := by
  intro rest hrest
  have hstep : step .between c = some ([], .between) := if_pos hc
  rw [← h rest hrest, List.cons_append, lexFrom_of_step hstep]
  exact Option.map_id'

theorem Lexes.symbol {c : Char} (hc : c ∈ symbols) {text : List Char}
    {tokens : Option (List Token)} (h : Lexes text tokens) :
    Lexes (c :: text) (symbolThen c tokens) := by
  intro rest hrest
  have hstep : step .between c = some ([.symbol c], .between) := by
    simp only [symbols, List.mem_cons, List.not_mem_nil, or_false] at hc
    rcases hc with rfl | rfl | rfl | rfl | rfl | rfl | rfl <;> rfl
  unfold symbolThen
  rw [List.cons_append, lexFrom_of_step hstep, h rest hrest]
  cases tokens with
  | none => rfl
  | some tokens =>
    simp only [Option.bind_some, Option.map_some, Option.map_map, Function.comp_def,
      List.nil_append, List.cons_append]

theorem step_string (read : List Char) (c : Char) : step (.string read) c =
    if c = '"' then some ([.string read], .between)
    else if c = '\\' then some ([], .escape read)
    else if c = '\n' ∨ c = '\r' ∨ c = Char.ofNat 0 then none
    else some ([], .string (read ++ [c])) := rfl

theorem step_escape (read : List Char) (c : Char) : step (.escape read) c =
    (unescape c).map fun c => ([], .string (read ++ [c])) := rfl

@[simp] theorem flush_number (read : List Char) :
    flush (.number read) = (numberToken read).map fun token => [token] := rfl

/-- Behind a word or a number that is complete, the lexer goes on as between tokens. -/
theorem lexFrom_of_delimited {mode : Mode} {rest : List Char} (hd : Delimited rest)
    (hm : (∃ read, mode = .word read) ∨ ∃ read, mode = .number read) :
    lexFrom mode rest = (flush mode).bind fun tokens =>
      (lexFrom .between rest).map fun later => tokens ++ later := by
  cases rest with
  | nil =>
    have hnil : lexFrom .between [] = some [] := rfl
    rw [hnil]
    unfold lexFrom
    cases flush mode with
    | none => rfl
    | some tokens => simp only [Option.bind_some, Option.map_some, List.append_nil]
  | cons c rest =>
    have hc := hd c rfl
    have hcons : ∀ mode, lexFrom mode (c :: rest) = (step mode c).bind fun p =>
        (lexFrom p.2 rest).map fun later => p.1 ++ later := fun mode => rfl
    have hstart : step .between c = start c := rfl
    rw [hcons, hcons, hstart]
    rcases hm with ⟨read, rfl⟩ | ⟨read, rfl⟩
    · have hstep : step (.word read) c =
          (start c).map fun p => (.word read :: p.1, p.2) :=
        if_neg (by rw [isWordChar_of_isNumberChar hc]; decide)
      rw [hstep]
      cases start c with
      | none => rfl
      | some p => simp [flush, Function.comp_def]
    · have hstep : step (.number read) c = (numberToken read).bind fun token =>
          (start c).map fun p => (token :: p.1, p.2) :=
        if_neg (by rw [hc]; decide)
      rw [hstep, flush_number]
      cases numberToken read with
      | none => rfl
      | some token =>
        cases start c with
        | none => rfl
        | some p => simp [Function.comp_def]

/-- The characters of a word are read on. -/
theorem lexFrom_word (read : List Char) {chars : List Char} (hc : ∀ c ∈ chars, isWordChar c = true)
    (rest : List Char) :
    lexFrom (.word read) (chars ++ rest) = lexFrom (.word (read ++ chars)) rest := by
  induction chars generalizing read with
  | nil => rw [List.nil_append, List.append_nil]
  | cons c chars ih =>
    have hstep : step (.word read) c = some ([], .word (read ++ [c])) :=
      if_pos (hc c List.mem_cons_self)
    rw [List.cons_append, lexFrom_of_step hstep, ih _ fun d hd => hc d (List.mem_cons_of_mem _ hd),
      List.append_assoc, List.singleton_append]
    exact Option.map_id'

theorem lexFrom_number (read : List Char) {chars : List Char}
    (hc : ∀ c ∈ chars, isNumberChar c = true) (rest : List Char) :
    lexFrom (.number read) (chars ++ rest) = lexFrom (.number (read ++ chars)) rest := by
  induction chars generalizing read with
  | nil => rw [List.nil_append, List.append_nil]
  | cons c chars ih =>
    have hstep : step (.number read) c = some ([], .number (read ++ [c])) :=
      if_pos (hc c List.mem_cons_self)
    rw [List.cons_append, lexFrom_of_step hstep, ih _ fun d hd => hc d (List.mem_cons_of_mem _ hd),
      List.append_assoc, List.singleton_append]
    exact Option.map_id'

theorem start_of_isWordStart {c : Char} (h : isWordStart c = true) :
    start c = some ([], .word [c]) := by
  have hspace : isSpace c = false := by
    by_contra hs
    have hs : isSpace c = true := by simpa using hs
    simp only [isSpace, Bool.or_eq_true, decide_eq_true_eq] at hs
    rcases hs with ((rfl | rfl) | rfl) | rfl <;> exact absurd h (by decide)
  have hquote : c ≠ '"' := by
    rintro rfl
    exact absurd h (by decide)
  have hdigit : c.isDigit = false := by
    by_contra hd
    have hd : c.isDigit = true := by simpa using hd
    have hlow : c.val ≤ '9'.val := of_decide_eq_true (Bool.and_eq_true_iff.mp hd).2
    rcases Bool.or_eq_true_iff.mp h with h | h
    · rcases Bool.or_eq_true_iff.mp h with hupper | hlower
      · have hhigh : 'A'.val ≤ c.val := (of_decide_eq_true hupper).1
        exact absurd (Nat.le_trans hhigh hlow : (65 : ℕ) ≤ 57) (by decide)
      · have hhigh : 'a'.val ≤ c.val := of_decide_eq_true (Bool.and_eq_true_iff.mp hlower).1
        exact absurd (Nat.le_trans hhigh hlow : (97 : ℕ) ≤ 57) (by decide)
    · rw [of_decide_eq_true h] at hd
      cases hd
  unfold start
  rw [if_neg (by rw [hspace]; decide), if_neg hquote, if_neg (by rw [hdigit]; decide), if_pos h]

theorem start_of_isDigit {c : Char} (h : c.isDigit = true) : start c = some ([], .number [c]) := by
  have hspace : isSpace c = false := by
    by_contra hs
    have hs : isSpace c = true := by simpa using hs
    simp only [isSpace, Bool.or_eq_true, decide_eq_true_eq] at hs
    rcases hs with ((rfl | rfl) | rfl) | rfl <;> exact absurd h (by decide)
  have hquote : c ≠ '"' := by
    rintro rfl
    exact absurd h (by decide)
  unfold start
  rw [if_neg (by rw [hspace]; decide), if_neg hquote, if_pos h]

/-- A word is one token. -/
theorem lexes_word {c : Char} {chars : List Char} (hc : isWordStart c = true)
    (hchars : ∀ d ∈ chars, isWordChar d = true) :
    Lexes (c :: chars) (some [.word (c :: chars)]) := by
  intro rest hrest
  have hstep : step .between c = some ([], .word [c]) := start_of_isWordStart hc
  rw [List.cons_append, lexFrom_of_step hstep, lexFrom_word _ hchars,
    lexFrom_of_delimited hrest (.inl ⟨_, rfl⟩)]
  exact Option.map_id'

theorem isNumberChar_of_isDigit {c : Char} (h : c.isDigit = true) : isNumberChar c = true := by
  unfold isNumberChar Char.isAlphanum
  rw [h, Bool.or_true, Bool.true_or, Bool.true_or]

/-- A decimal number is one token. -/
theorem lexes_number {whole fraction : List Char} (hwhole : whole ≠ [])
    (hw : ∀ c ∈ whole, c.isDigit = true) (hf : ∀ c ∈ fraction, c.isDigit = true) :
    Lexes (whole ++ if fraction = [] then [] else '.' :: fraction)
      (some [.number whole fraction]) := by
  intro rest hrest
  have hall : ∀ c ∈ whole ++ (if fraction = [] then [] else '.' :: fraction),
      isNumberChar c = true := by
    intro c hc
    rcases List.mem_append.mp hc with hc | hc
    · exact isNumberChar_of_isDigit (hw c hc)
    · split_ifs at hc
      · cases hc
      · rcases List.mem_cons.mp hc with rfl | hc
        · rfl
        · exact isNumberChar_of_isDigit (hf c hc)
  have htoken : numberToken (whole ++ if fraction = [] then [] else '.' :: fraction) =
      some (.number whole fraction) := by
    unfold numberToken
    rw [List.takeWhile_append_of_pos hw, List.dropWhile_append_of_pos hw]
    split_ifs with hnil
    · rw [hnil]
      simp
    · simpa using ⟨hnil, hf⟩
  cases whole with
  | nil => exact absurd rfl hwhole
  | cons d whole =>
    have hstep : step .between d = some ([], .number [d]) :=
      start_of_isDigit (hw d List.mem_cons_self)
    rw [List.cons_append] at hall htoken ⊢
    rw [List.cons_append, lexFrom_of_step hstep,
      lexFrom_number _ fun c hc => hall c (List.mem_cons_of_mem _ hc),
      lexFrom_of_delimited hrest (.inr ⟨_, rfl⟩), List.singleton_append]
    rw [flush_number, htoken]
    exact Option.map_id'

end Luau
