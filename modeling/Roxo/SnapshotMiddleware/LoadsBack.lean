import Roxo.SnapshotMiddleware.DataModules

/-!
# Data modules load back

What is printed for the data of a file is one `return` statement with the same data, as long as no
string contains a zero, no key is null and every integer is a float.
-/

namespace Roxo

open Luau

/-! ## The stream -/

namespace LuaStream

/-- The stream behind what has been put on a line. -/
def put (out : LuaStream) (text : List Char) : LuaStream :=
  { out with isStartOfLine := false, inner := out.inner ++ text }

/-- The stream behind what ends with a line break. -/
def putLine (out : LuaStream) (text : List Char) : LuaStream :=
  { out with isStartOfLine := true, inner := out.inner ++ text }

def indentation (out : LuaStream) : List Char :=
  if out.isStartOfLine then List.replicate out.indentLevel '\t' else []

variable {out : LuaStream} {text text' : List Char}

@[simp] theorem put_put : (out.put text).put text' = out.put (text ++ text') := by
  simp only [put, List.append_assoc]

@[simp] theorem put_putLine : (out.put text).putLine text' = out.putLine (text ++ text') := by
  simp only [put, putLine, List.append_assoc]

@[simp] theorem putLine_putLine :
    (out.putLine text).putLine text' = out.putLine (text ++ text') := by
  simp only [putLine, List.append_assoc]

@[simp] theorem indentation_put : (out.put text).indentation = [] := rfl

theorem put_nil (h : out.isStartOfLine = false) : out.put [] = out := by
  unfold put
  rw [List.append_nil, ← h]

theorem putLine_nil (h : out.isStartOfLine = true) : out.putLine [] = out := by
  unfold putLine
  rw [List.append_nil, ← h]

theorem writeLine_eq (hne : text ≠ []) :
    out.writeLine text = out.put (out.indentation ++ text) := by
  unfold writeLine
  rw [if_neg hne]
  simp only [put, indentation, List.append_assoc]

/-- What has no line break is put behind the indentation. -/
theorem writeStr_eq (hne : text ≠ []) (hline : '\n' ∉ text) :
    out.writeStr text = out.put (out.indentation ++ text) := by
  have hsplit : text.splitOn '\n' = [text] := by
    refine List.splitOnP_eq_singleton fun c hc => ?_
    rw [beq_eq_false_iff_ne]
    rintro rfl
    exact hline hc
  unfold writeStr
  rw [hsplit]
  exact writeLine_eq hne

theorem writeStr_break (c : Char) (hc : c ≠ '\n') :
    out.writeStr [c, '\n'] = out.putLine (out.indentation ++ [c, '\n']) := by
  have hsplit : [c, '\n'].splitOn '\n' = [[c], []] := by
    have hfirst : ∀ x ∈ [c], (x == '\n') = false := by simpa using hc
    exact List.splitOnP_append_cons_of_forall_mem hfirst '\n' rfl []
  unfold writeStr
  rw [hsplit]
  simp only [List.foldl_cons, List.foldl_nil]
  rw [writeLine_eq (List.cons_ne_nil _ _)]
  unfold writeLine
  rw [if_pos rfl]
  simp [put, putLine, line]

end LuaStream

/-! ## Strings -/

theorem luaEscape_ne_nil (c : Char) : luaEscape c ≠ [] := by
  unfold luaEscape
  split_ifs <;> exact List.cons_ne_nil _ _

theorem not_mem_luaEscape (c : Char) : '\n' ∉ luaEscape c := by
  unfold luaEscape
  split_ifs with _ _ hn _ _
  · decide
  · decide
  · decide
  · decide
  · decide
  · simpa using Ne.symm hn

theorem fmtEscaped_put (s : String) (out : LuaStream) (text : List Char) :
    fmtEscaped s (out.put text) = out.put (text ++ s.toList.flatMap luaEscape) := by
  unfold fmtEscaped
  generalize s.toList = chars
  induction chars generalizing text with
  | nil => rw [List.flatMap_nil, List.append_nil, List.foldl_nil]
  | cons c chars ih =>
    rw [List.foldl_cons, LuaStream.writeStr_eq (luaEscape_ne_nil c) (not_mem_luaEscape c),
      LuaStream.indentation_put, List.nil_append, LuaStream.put_put, ih, List.flatMap_cons,
      List.append_assoc]

/-- A string between quotes. -/
def quoted (s : String) : List Char := '"' :: (s.toList.flatMap luaEscape ++ ['"'])

theorem fmtString_eq (s : String) (out : LuaStream) :
    fmtString s out = out.put (out.indentation ++ quoted s) := by
  unfold fmtString quoted
  have hquote : ∀ out : LuaStream, out.writeStr ['"'] = out.put (out.indentation ++ ['"']) :=
    fun out => LuaStream.writeStr_eq (List.cons_ne_nil _ _) (by decide)
  rw [hquote out, fmtEscaped_put, hquote, LuaStream.indentation_put, LuaStream.put_put]
  simp only [List.nil_append, List.append_assoc, List.cons_append]

/-- The token of a string. A zero breaks it. -/
def stringToken (s : String) : Option (List Token) :=
  if Char.ofNat 0 ∈ s.toList then none else some [.string s.toList]

theorem lexFrom_escaped (read chars rest : List Char) :
    lexFrom (.string read) (chars.flatMap luaEscape ++ '"' :: rest) =
      if Char.ofNat 0 ∈ chars then none
      else (lexFrom .between rest).map fun later => .string (read ++ chars) :: later := by
  induction chars generalizing read with
  | nil =>
    have hstep : step (.string read) '"' = some ([.string read], .between) := rfl
    rw [List.flatMap_nil, List.nil_append, lexFrom_of_step hstep, List.append_nil,
      if_neg List.not_mem_nil]
    rfl
  | cons c chars ih =>
    have hescape : ∀ e c', luaEscape c = ['\\', e] → unescape e = some c' → c' = c →
        c ≠ Char.ofNat 0 → lexFrom (.string read) ((c :: chars).flatMap luaEscape ++ '"' :: rest) =
          if Char.ofNat 0 ∈ c :: chars then none
          else (lexFrom .between rest).map fun later => .string (read ++ c :: chars) :: later := by
      rintro e c' hesc hun rfl hzero
      have h₁ : step (.string read) '\\' = some ([], .escape read) := rfl
      have h₂ : step (.escape read) e = some ([], .string (read ++ [c'])) := by
        rw [step_escape, hun]
        rfl
      rw [List.flatMap_cons, hesc, List.append_assoc, List.cons_append, List.cons_append,
        lexFrom_of_step h₁, lexFrom_of_step h₂, List.nil_append, ih]
      have hmem : Char.ofNat 0 ∈ c' :: chars ↔ Char.ofNat 0 ∈ chars := by
        rw [List.mem_cons, or_iff_right (Ne.symm hzero)]
      simp only [hmem, List.append_assoc, List.singleton_append, List.nil_append, Option.map_id']
    by_cases hquote : c = '"'
    · exact hescape '"' '"' (by rw [hquote]; rfl) rfl hquote.symm (by rw [hquote]; decide)
    by_cases hreturn : c = '\r'
    · exact hescape 'r' '\r' (by rw [hreturn]; rfl) rfl hreturn.symm (by rw [hreturn]; decide)
    by_cases hbreak : c = '\n'
    · exact hescape 'n' '\n' (by rw [hbreak]; rfl) rfl hbreak.symm (by rw [hbreak]; decide)
    by_cases htab : c = '\t'
    · exact hescape 't' '\t' (by rw [htab]; rfl) rfl htab.symm (by rw [htab]; decide)
    by_cases hslash : c = '\\'
    · exact hescape '\\' '\\' (by rw [hslash]; rfl) rfl hslash.symm (by rw [hslash]; decide)
    have hself : luaEscape c = [c] := by
      unfold luaEscape
      rw [if_neg hquote, if_neg hreturn, if_neg hbreak, if_neg htab, if_neg hslash]
    rw [List.flatMap_cons, hself, List.append_assoc, List.singleton_append]
    by_cases hzero : c = Char.ofNat 0
    · have hstep : step (.string read) c = none := by
        rw [step_string, if_neg hquote, if_neg hslash, if_pos (.inr (.inr hzero))]
      rw [if_pos (hzero ▸ List.mem_cons_self)]
      unfold lexFrom
      rw [hstep]
      rfl
    · have hstep : step (.string read) c = some ([], .string (read ++ [c])) := by
        rw [step_string, if_neg hquote, if_neg hslash, if_neg]
        rintro (h | h | h)
        · exact hbreak h
        · exact hreturn h
        · exact hzero h
      have hmem : Char.ofNat 0 ∈ c :: chars ↔ Char.ofNat 0 ∈ chars := by
        rw [List.mem_cons, or_iff_right (Ne.symm hzero)]
      rw [lexFrom_of_step hstep, ih]
      simp only [hmem, List.append_assoc, List.singleton_append, List.nil_append, Option.map_id']

theorem lexes_quoted (s : String) : Lexes (quoted s) (stringToken s) := by
  intro rest _
  unfold quoted stringToken
  have hstep : step .between '"' = some ([], .string []) := rfl
  rw [List.cons_append, List.append_assoc, lexFrom_of_step hstep, List.singleton_append,
    lexFrom_escaped]
  split_ifs with hzero
  · rfl
  · simp [Function.comp_def]

/-! ## Data -/

/-- The value of a decimal number. -/
def Decimal.value (d : Decimal) : Luau.Value := .number d.negative d.whole d.fraction

def Decimal.tokens (d : Decimal) : List Token :=
  (if d.negative then [.symbol '-'] else []) ++ [.number d.whole d.fraction]

namespace Data

section Every

variable (P : Data → Prop)

mutual

/-- The property holds of the data and of all its items, keys and values, at any depth. -/
def Every : Data → Prop
  | array items => P (array items) ∧ EveryItem items
  | table entries => P (table entries) ∧ EveryEntry entries
  | null => P null
  | bool b => P (bool b)
  | integer n => P (integer n)
  | real a => P (real a)
  | string s => P (string s)

def EveryItem : List Data → Prop
  | [] => True
  | item :: items => item.Every ∧ EveryItem items

def EveryEntry : List (Data × Data) → Prop
  | [] => True
  | (key, value) :: entries => key.Every ∧ value.Every ∧ EveryEntry entries

end

end Every

/-- No key of a table is null. -/
def Keyed : Data → Prop
  | table entries => ∀ entry ∈ entries, entry.1 ≠ null
  | _ => True

/-- A string contains no zero. -/
def Zeroless : Data → Prop
  | string s => Char.ofNat 0 ∉ s.toList
  | _ => True

/-- An integer is one that a float can be. -/
def Exact : Data → Prop
  | integer n => FitsF64 n.value
  | _ => True

/-- A real number is finite. -/
def Finite : Data → Prop
  | real a => a.isFinite = true
  | _ => True

variable [FloatText]

mutual

/-- The Luau value that is printed for data. -/
def value : Data → Luau.Value
  | null => .nil
  | bool b => .bool b
  | integer n => (FloatText.display (F64.ofInt n.value)).value
  | real a => (FloatText.display a).value
  | string s => .string s.toList
  | array items => .table (valueItems items) []
  | table entries => .table [] (valueEntries entries)

def valueItems : List Data → List Luau.Value
  | [] => []
  | item :: items => item.value :: valueItems items

def valueEntries : List (Data × Data) → List (Luau.Value × Luau.Value)
  | [] => []
  | (key, value) :: entries => (key.value, value.value) :: valueEntries entries

end

/-- The tokens of a table key. -/
def keyTokens (tokens : Option (List Token)) : Data → Option (List Token)
  | string s =>
    if isValidIdent s then some [.word s.toList]
    else symbolThen '[' (join (stringToken s) (symbolThen ']' (some [])))
  | _ => symbolThen '[' (join tokens (symbolThen ']' (some [])))

mutual

/-- The tokens that are printed for data, unless a string is broken. -/
def tokens : Data → Option (List Token)
  | null => some [.word "nil".toList]
  | bool b => some [.word (toString b).toList]
  | integer n => some (FloatText.display (F64.ofInt n.value)).tokens
  | real a => some (FloatText.display a).tokens
  | string s => stringToken s
  | array items => symbolThen '{' (join (itemTokens items) (symbolThen '}' (some [])))
  | table entries => symbolThen '{' (join (entryTokens entries) (symbolThen '}' (some [])))

def itemTokens : List Data → Option (List Token)
  | [] => some []
  | item :: items =>
    join item.tokens (if items = [] then some [] else symbolThen ',' (itemTokens items))

def entryTokens : List (Data × Data) → Option (List Token)
  | [] => some []
  | (key, value) :: entries =>
    join (keyTokens key.tokens key)
      (symbolThen '=' (join value.tokens (symbolThen ',' (entryTokens entries))))

end

end Data

/-! ## What is printed -/

theorem delimited_cons {c : Char} (hc : isNumberChar c = false) (text : List Char) :
    ∀ rest, Delimited rest → Delimited (c :: text ++ rest) := by
  intro rest _ d hd
  obtain rfl := Option.some.inj hd
  exact hc

theorem lexes_indentation {out : LuaStream} {text : List Char} {tokens : Option (List Token)}
    (h : Lexes text tokens) : Lexes (out.indentation ++ text) tokens := by
  unfold LuaStream.indentation
  split_ifs
  · generalize out.indentLevel = n
    induction n with
    | zero => exact h
    | succ n ih => exact ih.space rfl
  · exact h

theorem Decimal.lexes (d : Decimal) : Lexes d.display (some d.tokens) := by
  have hmagnitude : Lexes d.magnitude (some [.number d.whole d.fraction]) :=
    lexes_number d.whole_ne_nil d.whole_digits d.fraction_digits
  unfold Decimal.display Decimal.tokens
  cases d.negative with
  | false => exact hmagnitude
  | true => exact hmagnitude.symbol (by decide)

theorem Decimal.display_ne_nil (d : Decimal) : d.display ≠ [] := by
  unfold Decimal.display Decimal.magnitude
  simp [d.whole_ne_nil]

theorem Decimal.not_mem_display (d : Decimal) : '\n' ∉ d.display := by
  have hdigit : ∀ l : List Char, (∀ c ∈ l, c.isDigit = true) → '\n' ∉ l :=
    fun l hl hmem => absurd (hl _ hmem) (by decide)
  have hw := hdigit _ d.whole_digits
  have hf := hdigit _ d.fraction_digits
  unfold Decimal.display Decimal.magnitude
  intro hmem
  rcases List.mem_append.mp hmem with hmem | hmem
  · split_ifs at hmem
    · exact absurd hmem (by decide)
    · cases hmem
  · rcases List.mem_append.mp hmem with hmem | hmem
    · exact hw hmem
    · split_ifs at hmem
      · cases hmem
      · rcases List.mem_cons.mp hmem with h | hmem
        · exact absurd h (by decide)
        · exact hf hmem

/-- What is put on a line lexes as the tokens. -/
def Puts (run : LuaStream → Option LuaStream) (tokens : Option (List Token)) : Prop :=
  ∀ out, ∃ text, run out = some (out.put text) ∧ Lexes text tokens

theorem puts_line {text : List Char} {tokens : Option (List Token)} (hne : text ≠ [])
    (hline : '\n' ∉ text) (h : Lexes text tokens) :
    Puts (fun out => some (out.writeStr text)) tokens := fun _ =>
  ⟨_, congrArg some (LuaStream.writeStr_eq hne hline), lexes_indentation h⟩

theorem puts_word {c : Char} {chars : List Char} (hc : isWordStart c = true)
    (hchars : ∀ d ∈ chars, isWordChar d = true) :
    Puts (fun out => some (out.writeStr (c :: chars))) (some [.word (c :: chars)]) := by
  refine puts_line (List.cons_ne_nil _ _) (fun hmem => ?_) (lexes_word hc hchars)
  rcases List.mem_cons.mp hmem with rfl | hmem
  · exact absurd hc (by decide)
  · exact absurd (hchars _ hmem) (by decide)

theorem puts_decimal (d : Decimal) :
    Puts (fun out => some ((LuaNumber.finite d).fmtLua out)) (some d.tokens) :=
  puts_line d.display_ne_nil d.not_mem_display d.lexes

theorem puts_ofF64 [FloatText] {a : F64} (h : a.isFinite = true) :
    Puts (fun out => some ((LuaNumber.ofF64 a).fmtLua out))
      (some (FloatText.display a).tokens) := by
  have hnumber : LuaNumber.ofF64 a = .finite (FloatText.display a) := if_pos h
  rw [hnumber]
  exact puts_decimal _

theorem lexes_end {c : Char} (hc : c ∈ symbols) : Lexes [c] (symbolThen c (some [])) :=
  Lexes.nil.symbol hc

/-- A key between brackets. -/
theorem puts_bracketed {run : LuaStream → Option LuaStream} {tokens : Option (List Token)}
    (h : Puts run tokens) :
    Puts (fun out => (run (out.writeStr ['['])).bind fun out => some (out.writeStr [']']))
      (symbolThen '[' (join tokens (symbolThen ']' (some [])))) := by
  intro out
  have hwrite : ∀ (c : Char) (out : LuaStream), c ≠ '\n' →
      out.writeStr [c] = out.put (out.indentation ++ [c]) := fun c out hc =>
    LuaStream.writeStr_eq (List.cons_ne_nil _ _) (by simpa using hc.symm)
  obtain ⟨text, hrun, hlex⟩ := h (out.writeStr ['['])
  rw [hwrite '[' out (by decide)] at hrun
  refine ⟨out.indentation ++ '[' :: (text ++ [']']), ?_, lexes_indentation
    ((hlex.append (lexes_end (by decide)) (delimited_cons rfl [])).symbol (by decide))⟩
  dsimp only
  rw [hwrite '[' out (by decide), hrun, Option.bind_some, hwrite ']' _ (by decide)]
  simp

theorem puts_quoted (s : String) : Puts (fun out => some (fmtString s out)) (stringToken s) :=
  fun out => ⟨_, congrArg some (fmtString_eq s out), lexes_indentation (lexes_quoted s)⟩

/-- A quoted key between brackets, which is written in two pieces. -/
theorem puts_quotedKey (s : String) :
    Puts (fun out => some ((fmtEscaped s (out.writeStr ['[', '"'])).writeStr ['"', ']']))
      (symbolThen '[' (join (stringToken s) (symbolThen ']' (some [])))) := by
  intro out
  refine ⟨out.indentation ++ '[' :: (quoted s ++ [']']), ?_, lexes_indentation
    (((lexes_quoted s).append (lexes_end (by decide)) (delimited_cons rfl [])).symbol (by decide))⟩
  have hopen : out.writeStr ['[', '"'] = out.put (out.indentation ++ ['[', '"']) :=
    LuaStream.writeStr_eq (List.cons_ne_nil _ _) (by decide)
  have hclose : ∀ out : LuaStream,
      out.writeStr ['"', ']'] = out.put (out.indentation ++ ['"', ']']) :=
    fun out => LuaStream.writeStr_eq (List.cons_ne_nil _ _) (by decide)
  dsimp only
  rw [hopen, fmtEscaped_put, hclose, LuaStream.indentation_put, LuaStream.put_put]
  unfold quoted
  simp

variable [FloatText]

theorem puts_key {key : Data} (hkey : key ≠ .null)
    (h : Puts (fmtLua key.expression) key.tokens) :
    Puts (fmtTableKey (fmtLua key.expression) key.expression) (Data.keyTokens key.tokens key) := by
  cases key with
  | null => exact absurd rfl hkey
  | string s =>
    have hrun : ∀ out,
        fmtTableKey (fmtLua (Data.string s).expression) (Data.string s).expression out =
        if isValidIdent s then some (out.writeStr s.toList)
        else some ((fmtEscaped s (out.writeStr ['[', '"'])).writeStr ['"', ']']) := fun _ => rfl
    have htokens : Data.keyTokens (Data.string s).tokens (.string s) =
        if isValidIdent s then some [.word s.toList]
        else symbolThen '[' (join (stringToken s) (symbolThen ']' (some []))) := rfl
    intro out
    rw [hrun, htokens]
    split_ifs with hident
    · unfold isValidIdent at hident
      rw [Bool.and_eq_true] at hident
      obtain ⟨-, hident⟩ := hident
      cases hs : s.toList with
      | nil =>
        rw [hs] at hident
        cases hident
      | cons c chars =>
        rw [hs, Bool.and_eq_true, List.all_eq_true] at hident
        exact puts_word hident.1 hident.2 out
    · exact puts_quotedKey s out
  | bool _ => exact puts_bracketed h
  | integer _ => exact puts_bracketed h
  | real _ => exact puts_bracketed h
  | array _ => exact puts_bracketed h
  | table _ => exact puts_bracketed h

mutual

/-- What is printed for data lexes as its tokens. -/
theorem puts_fmtLua : ∀ data : Data, data.Every Data.Keyed → data.Every Data.Finite →
    Puts (fmtLua data.expression) data.tokens
  | .null, _, _ => puts_word rfl (List.all_eq_true.mp rfl)
  | .bool true, _, _ => puts_word rfl (List.all_eq_true.mp rfl)
  | .bool false, _, _ => puts_word rfl (List.all_eq_true.mp rfl)
  | .integer n, _, _ => puts_ofF64 (F64.isFinite_ofInt n.natAbs_lt)
  | .real a, _, hf => puts_ofF64 hf
  | .string s, _, _ => puts_quoted s
  | .array items, hk, hf => by
    intro out
    have hopen : out.writeStr ['{'] = out.put (out.indentation ++ ['{']) :=
      LuaStream.writeStr_eq (List.cons_ne_nil _ _) (by decide)
    have hclose : ∀ out : LuaStream, out.writeStr ['}'] = out.put (out.indentation ++ ['}']) :=
      fun out => LuaStream.writeStr_eq (List.cons_ne_nil _ _) (by decide)
    obtain ⟨text, hrun, hlex⟩ := puts_fmtValues items hk.2 hf.2
      (out.put (out.indentation ++ ['{'])) rfl
    refine ⟨out.indentation ++ '{' :: (text ++ ['}']), ?_, lexes_indentation
      ((hlex.append (lexes_end (by decide)) (delimited_cons rfl [])).symbol (by decide))⟩
    unfold Data.expression fmtLua
    rw [hopen, hrun, Option.bind_eq_bind, Option.bind_some, hclose]
    simp
  | .table entries, hk, hf => by
    intro out
    have hclose : ∀ out : LuaStream, out.writeStr ['}'] = out.put (out.indentation ++ ['}']) :=
      fun out => LuaStream.writeStr_eq (List.cons_ne_nil _ _) (by decide)
    obtain ⟨text, hrun, hlex⟩ := puts_fmtEntries entries hk.1 hk.2 hf.2
      (out.putLine (out.indentation ++ ['{', '\n'])).indent rfl
    -- the brace that closes the table is indented as the line with the one that opens it
    have hlexClose : Lexes ((out.putLine []).indentation ++ ['}']) (symbolThen '}' (some [])) :=
      lexes_indentation (lexes_end (by decide))
    have hdelimited : ∀ rest, Delimited rest →
        Delimited ((out.putLine []).indentation ++ ['}'] ++ rest) := by
      have hindent : (out.putLine []).indentation = List.replicate out.indentLevel '\t' := rfl
      rw [hindent]
      cases out.indentLevel with
      | zero => exact delimited_cons rfl _
      | succ n => exact delimited_cons rfl _
    refine ⟨out.indentation ++ '{' :: '\n' :: (text ++ ((out.putLine []).indentation ++ ['}'])), ?_,
      lexes_indentation (((hlex.append hlexClose hdelimited).space rfl).symbol (by decide))⟩
    have hunindent : ((out.putLine (out.indentation ++ ['{', '\n'])).indent.putLine text).unindent =
        some (out.putLine (out.indentation ++ ['{', '\n'] ++ text)) := by
      simp [LuaStream.unindent, LuaStream.putLine, LuaStream.indent]
    have hindentation : ∀ text, (out.putLine text).indentation = (out.putLine []).indentation :=
      fun _ => rfl
    have hput : ∀ text text', (out.putLine text).put text' = out.put (text ++ text') := by
      intro text text'
      simp only [LuaStream.put, LuaStream.putLine, List.append_assoc]
    unfold Data.expression fmtLua
    rw [LuaStream.writeStr_break '{' (by decide), hrun, Option.bind_eq_bind, Option.bind_some,
      hunindent, Option.bind_some, hclose, hindentation, hput]
    simp

theorem puts_fmtValues : ∀ items : List Data, Data.EveryItem Data.Keyed items →
    Data.EveryItem Data.Finite items → ∀ out : LuaStream, out.isStartOfLine = false →
    ∃ text, fmtValues (Data.expressionItems items) out = some (out.put text) ∧
      Lexes text (Data.itemTokens items)
  | [], _, _, out, hout => ⟨[], congrArg some (LuaStream.put_nil hout).symm, .nil⟩
  | item :: items, hk, hf, out, hout => by
    obtain ⟨text, hrun, hlex⟩ := puts_fmtLua item hk.1 hf.1 out
    unfold Data.expressionItems fmtValues Data.itemTokens
    rw [hrun, Option.bind_eq_bind, Option.bind_some]
    cases items with
    | nil =>
      refine ⟨text ++ [], ?_, hlex.append .nil fun _ h => h⟩
      rw [List.append_nil]
      rfl
    | cons next items =>
      have hcomma : (out.put text).writeStr ", ".toList = out.put (text ++ ", ".toList) := by
        rw [LuaStream.writeStr_eq (by decide) (by decide), LuaStream.indentation_put,
          LuaStream.put_put, List.nil_append]
      obtain ⟨later, hrun', hlex'⟩ := puts_fmtValues (next :: items) hk.2 hf.2
        (out.put (text ++ ", ".toList)) rfl
      refine ⟨text ++ ',' :: ' ' :: later, ?_, hlex.append ((hlex'.space rfl).symbol (by decide))
        (delimited_cons rfl _)⟩
      have hne : Data.expressionItems (next :: items) ≠ [] := List.cons_ne_nil _ _
      rw [if_neg hne, hcomma, hrun', LuaStream.put_put, List.append_assoc]
      rfl

theorem puts_fmtEntries : ∀ entries : List (Data × Data), (∀ entry ∈ entries, entry.1 ≠ .null) →
    Data.EveryEntry Data.Keyed entries → Data.EveryEntry Data.Finite entries →
    ∀ out : LuaStream, out.isStartOfLine = true →
    ∃ text, fmtEntries (Data.expressionEntries entries) out = some (out.putLine text) ∧
      Lexes text (Data.entryTokens entries)
  | [], _, _, _, out, hout => ⟨[], congrArg some (LuaStream.putLine_nil hout).symm, .nil⟩
  | (key, value) :: entries, hne, hk, hf, out, _ => by
    obtain ⟨keyText, hkey, hlexKey⟩ := puts_key (hne _ List.mem_cons_self)
      (puts_fmtLua key hk.1 hf.1) out
    obtain ⟨text, hrun, hlex⟩ := puts_fmtLua value hk.2.1 hf.2.1 (out.put (keyText ++ " = ".toList))
    obtain ⟨later, hlater, hlexLater⟩ := puts_fmtEntries entries
      (fun entry he => hne entry (List.mem_cons_of_mem _ he)) hk.2.2 hf.2.2
      (out.putLine (keyText ++ " = ".toList ++ text ++ [',', '\n'])) rfl
    have hequals : (out.put keyText).writeStr " = ".toList = out.put (keyText ++ " = ".toList) := by
      rw [LuaStream.writeStr_eq (by decide) (by decide), LuaStream.indentation_put,
        LuaStream.put_put, List.nil_append]
    refine ⟨keyText ++ ' ' :: '=' :: ' ' :: (text ++ ',' :: '\n' :: later), ?_,
      hlexKey.append (((hlex.append ((hlexLater.space rfl).symbol (by decide))
        (delimited_cons rfl _)).space rfl).symbol (by decide) |>.space rfl) (delimited_cons rfl _)⟩
    unfold Data.expressionEntries fmtEntries
    rw [hkey, Option.bind_eq_bind, Option.bind_some, hequals, hrun, Option.bind_some,
      LuaStream.writeStr_break ',' (by decide), LuaStream.put_put,
      LuaStream.indentation_put, List.nil_append, LuaStream.put_putLine, hlater,
      LuaStream.putLine_putLine]
    simp

end

/-! ## What panics -/

mutual

/-- Where printing goes through, no key is null. -/
theorem keyed_of_fmtLua : ∀ (data : Data) {out out' : LuaStream},
    fmtLua data.expression out = some out' → data.Every Data.Keyed
  | .null, _, _, _ => trivial
  | .bool _, _, _, _ => trivial
  | .integer _, _, _, _ => trivial
  | .real _, _, _, _ => trivial
  | .string _, _, _, _ => trivial
  | .array items, _, _, h => by
    obtain ⟨_, h, -⟩ := Option.bind_eq_some_iff.mp h
    exact ⟨trivial, keyed_of_fmtValues items h⟩
  | .table entries, _, _, h => by
    obtain ⟨_, h, -⟩ := Option.bind_eq_some_iff.mp h
    exact keyed_of_fmtEntries entries h

theorem keyed_of_fmtValues : ∀ (items : List Data) {out out' : LuaStream},
    fmtValues (Data.expressionItems items) out = some out' → Data.EveryItem Data.Keyed items
  | [], _, _, _ => trivial
  | item :: items, _, _, h => by
    obtain ⟨_, hitem, h⟩ := Option.bind_eq_some_iff.mp h
    exact ⟨keyed_of_fmtLua item hitem, keyed_of_fmtValues items h⟩

theorem keyed_of_fmtEntries : ∀ (entries : List (Data × Data)) {out out' : LuaStream},
    fmtEntries (Data.expressionEntries entries) out = some out' →
    (∀ entry ∈ entries, entry.1 ≠ .null) ∧ Data.EveryEntry Data.Keyed entries
  | [], _, _, _ => ⟨nofun, trivial⟩
  | (key, value) :: entries, _, _, h => by
    obtain ⟨_, hkey, h⟩ := Option.bind_eq_some_iff.mp h
    obtain ⟨_, hvalue, h⟩ := Option.bind_eq_some_iff.mp h
    obtain ⟨hne, hentries⟩ := keyed_of_fmtEntries entries h
    have hkeyed : key ≠ .null ∧ key.Every Data.Keyed := by
      cases key with
      | null => cases hkey
      | array items =>
        obtain ⟨_, hkey, -⟩ := Option.bind_eq_some_iff.mp hkey
        exact ⟨nofun, keyed_of_fmtLua (.array items) hkey⟩
      | table entries =>
        obtain ⟨_, hkey, -⟩ := Option.bind_eq_some_iff.mp hkey
        exact ⟨nofun, keyed_of_fmtLua (.table entries) hkey⟩
      | bool _ => exact ⟨nofun, trivial⟩
      | integer _ => exact ⟨nofun, trivial⟩
      | real _ => exact ⟨nofun, trivial⟩
      | string _ => exact ⟨nofun, trivial⟩
    refine ⟨fun entry he => ?_, hkeyed.2, keyed_of_fmtLua value hvalue, hentries⟩
    rcases List.mem_cons.mp he with rfl | he
    · exact hkeyed.1
    · exact hne entry he

end

/-! ## What is broken -/

omit [FloatText] in
theorem isSome_join {a b : Option (List Token)} :
    (join a b).isSome ↔ a.isSome ∧ b.isSome := by
  cases a <;> cases b <;> simp [join]

omit [FloatText] in
theorem isSome_symbolThen {c : Char} {a : Option (List Token)} :
    (symbolThen c a).isSome ↔ a.isSome := by
  cases a <;> simp [symbolThen]

omit [FloatText] in
theorem isSome_stringToken {s : String} :
    (stringToken s).isSome ↔ Char.ofNat 0 ∉ s.toList := by
  unfold stringToken
  split_ifs with h <;> simp [h]

omit [FloatText] in
/-- A name contains no zero. -/
theorem zeroless_of_isValidIdent {s : String} (h : isValidIdent s = true) :
    Char.ofNat 0 ∉ s.toList := by
  unfold isValidIdent at h
  rw [Bool.and_eq_true] at h
  obtain ⟨-, h⟩ := h
  cases hs : s.toList with
  | nil => exact List.not_mem_nil
  | cons c chars =>
    rw [hs, Bool.and_eq_true, List.all_eq_true] at h
    intro hzero
    rcases List.mem_cons.mp hzero with rfl | hzero
    · exact absurd h.1 (by decide)
    · exact absurd (h.2 _ hzero) (by decide)

theorem isSome_keyTokens {key : Data} :
    (Data.keyTokens key.tokens key).isSome ↔ key.tokens.isSome := by
  cases key with
  | string s =>
    have htokens : Data.keyTokens (Data.string s).tokens (.string s) =
        if isValidIdent s then some [.word s.toList]
        else symbolThen '[' (join (stringToken s) (symbolThen ']' (some []))) := rfl
    have hstring : (Data.string s).tokens = stringToken s := rfl
    rw [htokens, hstring]
    split_ifs with hident
    · exact iff_of_true rfl (isSome_stringToken.mpr (zeroless_of_isValidIdent hident))
    · rw [isSome_symbolThen, isSome_join]
      exact and_iff_left rfl
  | null => exact iff_of_true rfl rfl
  | bool _ => exact iff_of_true rfl rfl
  | integer _ => exact iff_of_true rfl rfl
  | real _ => exact iff_of_true rfl rfl
  | array _ => exact isSome_symbolThen.trans (isSome_join.trans (and_iff_left rfl))
  | table _ => exact isSome_symbolThen.trans (isSome_join.trans (and_iff_left rfl))

mutual

/-- The tokens are there as long as no string contains a zero. -/
theorem isSome_tokens : ∀ data : Data, data.tokens.isSome ↔ data.Every Data.Zeroless
  | .null => iff_of_true rfl trivial
  | .bool _ => iff_of_true rfl trivial
  | .integer _ => iff_of_true rfl trivial
  | .real _ => iff_of_true rfl trivial
  | .string _ => isSome_stringToken
  | .array items => by
    refine isSome_symbolThen.trans (isSome_join.trans ?_)
    rw [isSome_itemTokens items]
    exact (and_iff_left rfl).trans (iff_of_eq (true_and _)).symm
  | .table entries => by
    refine isSome_symbolThen.trans (isSome_join.trans ?_)
    rw [isSome_entryTokens entries]
    exact (and_iff_left rfl).trans (iff_of_eq (true_and _)).symm

theorem isSome_itemTokens : ∀ items : List Data,
    (Data.itemTokens items).isSome ↔ Data.EveryItem Data.Zeroless items
  | [] => iff_of_true rfl trivial
  | item :: items => by
    refine isSome_join.trans (and_congr (isSome_tokens item) ?_)
    rw [← isSome_itemTokens items]
    split_ifs with hnil
    · rw [hnil]
      rfl
    · exact isSome_symbolThen

theorem isSome_entryTokens : ∀ entries : List (Data × Data),
    (Data.entryTokens entries).isSome ↔ Data.EveryEntry Data.Zeroless entries
  | [] => iff_of_true rfl trivial
  | (key, value) :: entries => by
    refine isSome_join.trans (and_congr (isSome_keyTokens.trans (isSome_tokens key)) ?_)
    refine isSome_symbolThen.trans (isSome_join.trans (and_congr (isSome_tokens value) ?_))
    exact isSome_symbolThen.trans (isSome_entryTokens entries)

end

/-! ## What is not exact -/

namespace Data

omit [FloatText] in
mutual

/-- The value has the same strings, booleans and numbers, items and entries as the data. Its numbers
are the floats that Luau reads. -/
def Holds : Data → Luau.Value → Prop
  | null, .nil => True
  | bool b, .bool b' => b' = b
  | integer n, .number negative whole fraction =>
    (F64.ofDecimal negative whole fraction).toRat = n.value
  | real a, .number negative whole fraction => F64.ofDecimal negative whole fraction = a
  | string s, .string chars => chars = s.toList
  | array items, .table values [] => HoldsItems items values
  | table entries, .table [] pairs => HoldsEntries entries pairs
  | _, _ => False

def HoldsItems : List Data → List Luau.Value → Prop
  | [], [] => True
  | item :: items, value :: values => item.Holds value ∧ HoldsItems items values
  | _, _ => False

def HoldsEntries : List (Data × Data) → List (Luau.Value × Luau.Value) → Prop
  | [], [] => True
  | (key, value) :: entries, pair :: pairs =>
    key.Holds pair.1 ∧ value.Holds pair.2 ∧ HoldsEntries entries pairs
  | _, _ => False

end

mutual

/-- What is printed holds the data exactly when a float has room for each integer. -/
theorem holds_value_iff : ∀ data : Data, data.Every Finite →
    (data.Holds data.value ↔ data.Every Exact)
  | null, _ => Iff.rfl
  | bool _, _ => iff_of_true rfl trivial
  | integer n, _ => by
    have hread : (FloatText.display (F64.ofInt n.value)).toF64 = F64.ofInt n.value :=
      FloatText.toF64_display _ (F64.isFinite_ofInt n.natAbs_lt)
    have hholds : (integer n).Holds (integer n).value ↔
        (FloatText.display (F64.ofInt n.value)).toF64.toRat = n.value := Iff.rfl
    rw [hholds, hread]
    exact F64.toRat_ofInt_eq_iff n.natAbs_lt
  | real a, hf => iff_of_true (FloatText.toF64_display a hf) trivial
  | string _, _ => iff_of_true rfl trivial
  | array items, hf => (holds_valueItems_iff items hf.2).trans (iff_of_eq (true_and _)).symm
  | table entries, hf => (holds_valueEntries_iff entries hf.2).trans (iff_of_eq (true_and _)).symm

theorem holds_valueItems_iff : ∀ items : List Data, EveryItem Finite items →
    (HoldsItems items (valueItems items) ↔ EveryItem Exact items)
  | [], _ => Iff.rfl
  | item :: items, hf => and_congr (holds_value_iff item hf.1) (holds_valueItems_iff items hf.2)

theorem holds_valueEntries_iff : ∀ entries : List (Data × Data), EveryEntry Finite entries →
    (HoldsEntries entries (valueEntries entries) ↔ EveryEntry Exact entries)
  | [], _ => Iff.rfl
  | (key, value) :: entries, hf => and_congr (holds_value_iff key hf.1)
    (and_congr (holds_value_iff value hf.2.1) (holds_valueEntries_iff entries hf.2.2))

end

end Data

/-! ## What is read -/

omit [FloatText] in
@[simp] theorem ofFields_item (values : List Luau.Value) :
    Luau.Value.ofFields (values.map Field.item) = .table values [] := by
  unfold Luau.Value.ofFields
  rw [List.filterMap_map, List.filterMap_map]
  have hitem : Field.item? ∘ Field.item = some := rfl
  have hentry : Field.entry? ∘ Field.item = fun _ => none := rfl
  rw [hitem, hentry, List.filterMap_some]
  simp

omit [FloatText] in
@[simp] theorem ofFields_entry (entries : List (Luau.Value × Luau.Value)) :
    Luau.Value.ofFields (entries.map fun entry => Field.entry entry.1 entry.2) =
      .table [] entries := by
  unfold Luau.Value.ofFields
  rw [List.filterMap_map, List.filterMap_map]
  have hitem : (Field.item? ∘ fun entry : Luau.Value × Luau.Value => Field.entry entry.1 entry.2) =
      fun _ => none := rfl
  have hentry : (Field.entry? ∘ fun entry : Luau.Value × Luau.Value =>
      Field.entry entry.1 entry.2) = some := rfl
  rw [hitem, hentry, List.filterMap_some]
  simp

omit [FloatText] in
theorem join_eq_some {a b : Option (List Token)} {tokens : List Token}
    (h : join a b = some tokens) :
    ∃ first second, a = some first ∧ b = some second ∧ tokens = first ++ second := by
  obtain ⟨first, ha, h⟩ := Option.bind_eq_some_iff.mp h
  obtain ⟨second, hb, h⟩ := Option.map_eq_some_iff.mp h
  exact ⟨first, second, ha, hb, h.symm⟩

omit [FloatText] in
theorem symbolThen_eq_some {c : Char} {a : Option (List Token)} {tokens : List Token}
    (h : symbolThen c a = some tokens) : ∃ later, a = some later ∧ tokens = .symbol c :: later := by
  obtain ⟨later, ha, h⟩ := Option.map_eq_some_iff.mp h
  exact ⟨later, ha, h.symm⟩

omit [FloatText] in
theorem isKeyword_eq (s : String) : Luau.isKeyword s.toList = isKeyword s := by
  unfold Luau.isKeyword isKeyword
  rw [Bool.eq_iff_iff, List.any_eq_true, decide_eq_true_eq]
  constructor
  · rintro ⟨word, hmem, heq⟩
    rw [decide_eq_true_eq, String.toList_inj] at heq
    exact heq ▸ hmem
  · exact fun hmem => ⟨s, hmem, decide_eq_true rfl⟩

omit [FloatText] in
theorem parse_decimal (d : Decimal) (fuel : ℕ) (rest : List Token) :
    parseExp (fuel + 1) (d.tokens ++ rest) = some (d.value, rest) := by
  unfold Decimal.tokens Decimal.value
  cases d.negative <;> rfl

/-- An item of an array is no field with a key. -/
theorem parseField_item {data : Data} {tokens : List Token} (h : data.tokens = some tokens)
    {c : Char} (hc : c ≠ '=') (parseExp : List Token → Option (Luau.Value × List Token))
    (rest : List Token) : parseField parseExp (tokens ++ .symbol c :: rest) =
      (parseExp (tokens ++ .symbol c :: rest)).bind fun p => some (.item p.1, p.2) := by
  cases data with
  | null =>
    obtain rfl := Option.some.inj h
    unfold parseField
    split
    · next heq => cases heq
    · next heq =>
      cases heq
      exact absurd rfl hc
    · rfl
  | bool b =>
    obtain rfl := Option.some.inj h
    unfold parseField
    split
    · next heq => cases heq
    · next heq =>
      cases heq
      exact absurd rfl hc
    · rfl
  | integer n =>
    obtain rfl := Option.some.inj h
    unfold Decimal.tokens
    cases (FloatText.display (F64.ofInt n.value)).negative <;> rfl
  | real a =>
    obtain rfl := Option.some.inj h
    unfold Decimal.tokens
    cases (FloatText.display a).negative <;> rfl
  | string s =>
    have h : stringToken s = some tokens := h
    unfold stringToken at h
    split_ifs at h
    obtain rfl := Option.some.inj h
    rfl
  | array items =>
    obtain ⟨later, -, rfl⟩ := symbolThen_eq_some h
    rfl
  | table entries =>
    obtain ⟨later, -, rfl⟩ := symbolThen_eq_some h
    rfl

theorem length_pos_of_tokens {data : Data} {tokens : List Token} (h : data.tokens = some tokens) :
    0 < tokens.length := by
  cases data with
  | null => exact Option.some.inj h ▸ Nat.one_pos
  | bool b => exact Option.some.inj h ▸ Nat.one_pos
  | integer n =>
    rw [← Option.some.inj h]
    simp [Decimal.tokens]
  | real a =>
    rw [← Option.some.inj h]
    simp [Decimal.tokens]
  | string s =>
    have h : stringToken s = some tokens := h
    unfold stringToken at h
    split_ifs at h
    exact Option.some.inj h ▸ Nat.one_pos
  | array items =>
    obtain ⟨later, -, rfl⟩ := symbolThen_eq_some h
    exact Nat.succ_pos _
  | table entries =>
    obtain ⟨later, -, rfl⟩ := symbolThen_eq_some h
    exact Nat.succ_pos _

/-- No token of data closes a table. -/
theorem head_tokens {data : Data} {tokens : List Token} (h : data.tokens = some tokens)
    (later : List Token) : (tokens ++ later).head? ≠ some (.symbol '}') := by
  cases data with
  | null => exact Option.some.inj h ▸ by simp
  | bool b => exact Option.some.inj h ▸ by simp
  | integer n =>
    rw [← Option.some.inj h]
    unfold Decimal.tokens
    cases (FloatText.display (F64.ofInt n.value)).negative <;> simp
  | real a =>
    rw [← Option.some.inj h]
    unfold Decimal.tokens
    cases (FloatText.display a).negative <;> simp
  | string s =>
    have h : stringToken s = some tokens := h
    unfold stringToken at h
    split_ifs at h
    exact Option.some.inj h ▸ by simp
  | array items =>
    obtain ⟨later, -, rfl⟩ := symbolThen_eq_some h
    simp
  | table entries =>
    obtain ⟨later, -, rfl⟩ := symbolThen_eq_some h
    simp

/-- The tokens of a key are a name, or stand between brackets. -/
theorem keyTokens_cases {key : Data} {tokens : List Token}
    (h : Data.keyTokens key.tokens key = some tokens) :
    (∃ s, key = .string s ∧ isValidIdent s = true ∧ tokens = [.word s.toList]) ∨
      ∃ inner, key.tokens = some inner ∧ tokens = .symbol '[' :: (inner ++ [.symbol ']']) := by
  have hbracket : ∀ a, symbolThen '[' (join a (symbolThen ']' (some []))) = some tokens →
      ∃ inner, a = some inner ∧ tokens = .symbol '[' :: (inner ++ [.symbol ']']) := by
    intro a ha
    obtain ⟨later, hjoin, rfl⟩ := symbolThen_eq_some ha
    obtain ⟨inner, last, hinner, hlast, rfl⟩ := join_eq_some hjoin
    exact ⟨inner, hinner, by rw [← Option.some.inj hlast]⟩
  cases key with
  | string s =>
    have htokens : Data.keyTokens (Data.string s).tokens (.string s) =
        if isValidIdent s then some [.word s.toList]
        else symbolThen '[' (join (stringToken s) (symbolThen ']' (some []))) := rfl
    rw [htokens] at h
    split_ifs at h with hident
    · exact .inl ⟨s, rfl, hident, (Option.some.inj h).symm⟩
    · exact .inr (hbracket _ h)
  | null => exact .inr (hbracket _ h)
  | bool _ => exact .inr (hbracket _ h)
  | integer _ => exact .inr (hbracket _ h)
  | real _ => exact .inr (hbracket _ h)
  | array _ => exact .inr (hbracket _ h)
  | table _ => exact .inr (hbracket _ h)

/-- An entry of a table. -/
theorem parseField_entry {key : Data} {ks later rest : List Token} {value : Luau.Value}
    (parse : List Token → Option (Luau.Value × List Token))
    (hks : Data.keyTokens key.tokens key = some ks)
    (hkey : ∀ inner, key.tokens = some inner → inner.length ≤ ks.length →
      ∀ rest, parse (inner ++ rest) = some (key.value, rest))
    (hvalue : parse later = some (value, rest)) :
    parseField parse (ks ++ .symbol '=' :: later) =
      some (.entry (key.value) value, rest) := by
  rcases keyTokens_cases hks with ⟨s, rfl, hident, rfl⟩ | ⟨inner, hinner, rfl⟩
  · have hkeyword : Luau.isKeyword s.toList = false := by
      rw [isKeyword_eq]
      unfold isValidIdent at hident
      rw [Bool.and_eq_true] at hident
      simpa using hident.1
    exact parseField_name hkeyword hvalue
  · have hlength : inner.length ≤ (Token.symbol '[' :: (inner ++ [.symbol ']'])).length := by
      simp
      omega
    have hparse := hkey inner hinner hlength (.symbol ']' :: .symbol '=' :: later)
    have hshape : Token.symbol '[' :: (inner ++ [.symbol ']']) ++ .symbol '=' :: later =
        .symbol '[' :: (inner ++ .symbol ']' :: .symbol '=' :: later) := by simp
    rw [hshape]
    exact parseField_bracket hparse hvalue

theorem head_keyTokens {key : Data} {ks : List Token}
    (hks : Data.keyTokens key.tokens key = some ks) (later : List Token) :
    (ks ++ later).head? ≠ some (.symbol '}') := by
  rcases keyTokens_cases hks with ⟨s, -, -, rfl⟩ | ⟨inner, -, rfl⟩ <;> simp

mutual

/-- The tokens of data are read back. -/
theorem parseExp_tokens : ∀ (data : Data) {tokens : List Token}, data.tokens = some tokens →
    ∀ (fuel : ℕ), tokens.length ≤ fuel → ∀ rest,
      parseExp fuel (tokens ++ rest) = some (data.value, rest)
  | data, tokens, h, 0, hfuel, rest => by
    have := length_pos_of_tokens h
    omega
  | .null, _, h, _ + 1, _, rest => by
    obtain rfl := Option.some.inj h
    rfl
  | .bool true, _, h, _ + 1, _, rest => by
    obtain rfl := Option.some.inj h
    rfl
  | .bool false, _, h, _ + 1, _, rest => by
    obtain rfl := Option.some.inj h
    rfl
  | .integer n, _, h, _ + 1, _, rest => by
    obtain rfl := Option.some.inj h
    exact parse_decimal _ _ _
  | .real a, _, h, _ + 1, _, rest => by
    obtain rfl := Option.some.inj h
    exact parse_decimal _ _ _
  | .string s, tokens, h, _ + 1, _, rest => by
    have h : stringToken s = some tokens := h
    unfold stringToken at h
    split_ifs at h
    obtain rfl := Option.some.inj h
    rfl
  | .array items, _, h, fuel + 1, hfuel, rest => by
    obtain ⟨later, hjoin, rfl⟩ := symbolThen_eq_some h
    obtain ⟨inner, last, hinner, hlast, rfl⟩ := join_eq_some hjoin
    obtain rfl := Option.some.inj hlast
    have hfields := parseFields_items items hinner fuel (by simp at hfuel; omega) rest
    rw [List.cons_append, List.append_assoc, List.singleton_append]
    unfold parseExp
    simp only [hfields, Option.bind_eq_bind, Option.bind_some, ofFields_item]
    rfl
  | .table entries, _, h, fuel + 1, hfuel, rest => by
    obtain ⟨later, hjoin, rfl⟩ := symbolThen_eq_some h
    obtain ⟨inner, last, hinner, hlast, rfl⟩ := join_eq_some hjoin
    obtain rfl := Option.some.inj hlast
    have hfields := parseFields_entries entries hinner fuel (by simp at hfuel; omega) rest
    rw [List.cons_append, List.append_assoc, List.singleton_append]
    unfold parseExp
    simp only [hfields, Option.bind_eq_bind, Option.bind_some, ofFields_entry]
    rfl

theorem parseFields_items : ∀ (items : List Data) {tokens : List Token},
    Data.itemTokens items = some tokens → ∀ (fuel : ℕ), tokens.length < fuel → ∀ rest,
      parseFields fuel (tokens ++ .symbol '}' :: rest) =
        some ((Data.valueItems items).map Field.item, rest)
  | [], _, h, 0, hfuel, _ => absurd hfuel (Nat.not_lt_zero _)
  | [], _, h, _ + 1, _, rest => by
    obtain rfl := Option.some.inj h
    rfl
  | item :: items, tokens, h, fuel, hfuel, rest => by
    obtain ⟨first, later, hfirst, hlater, rfl⟩ := join_eq_some h
    have hpos := length_pos_of_tokens hfirst
    rw [List.length_append] at hfuel
    obtain ⟨fuel, rfl⟩ : ∃ n, fuel = n + 1 := ⟨fuel - 1, by omega⟩
    have hparse := parseExp_tokens item hfirst fuel (by omega)
    rw [List.append_assoc]
    have hopen := head_tokens hfirst (later ++ .symbol '}' :: rest)
    split_ifs at hlater with hnil
    · obtain rfl := Option.some.inj hlater
      subst hnil
      refine parseFields_close hopen ?_
      rw [List.nil_append, parseField_item hfirst (by decide), hparse]
      rfl
    · obtain ⟨more, hmore, rfl⟩ := symbolThen_eq_some hlater
      rw [List.length_cons] at hfuel
      have hrest := parseFields_items items hmore fuel (by omega) rest
      have hfield : parseField (parseExp fuel)
          (first ++ (.symbol ',' :: more ++ .symbol '}' :: rest)) =
          some (.item (item.value), .symbol ',' :: (more ++ .symbol '}' :: rest)) := by
        rw [List.cons_append, parseField_item hfirst (by decide), hparse]
        rfl
      rw [parseFields_comma hopen hfield, hrest]
      rfl

theorem parseFields_entries : ∀ (entries : List (Data × Data)) {tokens : List Token},
    Data.entryTokens entries = some tokens → ∀ (fuel : ℕ), tokens.length < fuel → ∀ rest,
      parseFields fuel (tokens ++ .symbol '}' :: rest) =
        some ((Data.valueEntries entries).map fun entry => Field.entry entry.1 entry.2, rest)
  | [], _, h, 0, hfuel, _ => absurd hfuel (Nat.not_lt_zero _)
  | [], _, h, _ + 1, _, rest => by
    obtain rfl := Option.some.inj h
    rfl
  | (key, value) :: entries, tokens, h, fuel, hfuel, rest => by
    obtain ⟨ks, later, hks, hlater, rfl⟩ := join_eq_some h
    obtain ⟨valued, hvalued, rfl⟩ := symbolThen_eq_some hlater
    obtain ⟨vs, ended, hvs, hended, rfl⟩ := join_eq_some hvalued
    obtain ⟨more, hmore, rfl⟩ := symbolThen_eq_some hended
    simp only [List.length_append, List.length_cons] at hfuel
    obtain ⟨fuel, rfl⟩ : ∃ n, fuel = n + 1 := ⟨fuel - 1, by omega⟩
    have hvalue := parseExp_tokens value hvs fuel (by omega)
      (.symbol ',' :: (more ++ .symbol '}' :: rest))
    have hrest := parseFields_entries entries hmore fuel (by omega) rest
    have hfield := parseField_entry (parseExp fuel) hks
      (fun inner hinner hle => parseExp_tokens key hinner fuel (by omega)) hvalue
    have hshape : ks ++ .symbol '=' :: (vs ++ .symbol ',' :: more) ++ .symbol '}' :: rest =
        ks ++ .symbol '=' :: (vs ++ .symbol ',' :: (more ++ .symbol '}' :: rest)) := by simp
    rw [hshape, parseFields_comma (head_keyTokens hks _) hfield, hrest]
    rfl

end

/-! ## Loading back -/

/-- The statement is printed, and the text loads as a value that holds the data. -/
def LoadsBack (statement : Statement) (data : Data) : Prop :=
  ∃ text value, statement.toText = some text ∧ load text = some value ∧ data.Holds value

/-- The data has no null keys, no zeros in strings and no integers that a float cannot be. -/
structure Data.Loadable (data : Data) : Prop where
  keyed : data.Every Data.Keyed
  zeroless : data.Every Data.Zeroless
  exact : data.Every Data.Exact

/-- What the text of a statement loads as. -/
theorem load_toText {data : Data} {text : List Char} (hf : data.Every Data.Finite)
    (h : (Statement.ret data.expression).toText = some text) :
    load text = data.tokens.map fun _ => data.value := by
  have hstart : LuaStream.new.writeStr "return ".toList = LuaStream.new.put "return ".toList :=
    LuaStream.writeStr_eq (by decide) (by decide)
  obtain ⟨out, hrun, rfl⟩ := Option.map_eq_some_iff.mp h
  have hk := keyed_of_fmtLua data hrun
  obtain ⟨printed, hprinted, hlex⟩ := puts_fmtLua data hk hf (LuaStream.new.put "return ".toList)
  rw [hstart, hprinted, Option.some.injEq] at hrun
  have htext : out.inner = "return".toList ++ ' ' :: printed := hrun ▸ rfl
  have hreturn : Lexes "return".toList (some [.word "return".toList]) :=
    lexes_word rfl (List.all_eq_true.mp rfl)
  have hall : Lexes ("return".toList ++ ' ' :: printed)
      (join (some [.word "return".toList]) data.tokens) :=
    hreturn.append (hlex.space rfl) (delimited_cons rfl _)
  have htokens : lex out.inner = join (some [.word "return".toList]) data.tokens := by
    have hnil := hall [] nofun
    rw [List.append_nil, ← htext] at hnil
    unfold lex
    rw [hnil]
    cases join (some [.word "return".toList]) data.tokens with
    | none => rfl
    | some tokens => exact congrArg some (List.append_nil _)
  cases hdata : data.tokens with
  | none =>
    rw [hdata] at htokens
    exact load_eq_none htokens
  | some tokens =>
    rw [hdata] at htokens
    have hparse := parseExp_tokens data hdata (tokens.length + 1) (Nat.le_succ _) []
    rw [List.append_nil] at hparse
    exact load_eq_some htokens hparse

/-- What is printed for data loads back exactly when the data is loadable. -/
theorem loadsBack_iff {data : Data} (hf : data.Every Data.Finite) :
    LoadsBack (.ret data.expression) data ↔ data.Loadable := by
  constructor
  · rintro ⟨text, value, htext, hload, hholds⟩
    rw [load_toText hf htext] at hload
    obtain ⟨tokens, htokens, rfl⟩ := Option.map_eq_some_iff.mp hload
    obtain ⟨out, hrun, -⟩ := Option.map_eq_some_iff.mp htext
    exact ⟨keyed_of_fmtLua data hrun,
      (isSome_tokens data).mp (Option.isSome_iff_exists.mpr ⟨tokens, htokens⟩),
      (data.holds_value_iff hf).mp hholds⟩
  · intro h
    obtain ⟨printed, hprinted, -⟩ :=
      puts_fmtLua data h.keyed hf (LuaStream.new.writeStr "return ".toList)
    have htext : (Statement.ret data.expression).toText = some
        ((LuaStream.new.writeStr "return ".toList).put printed).inner :=
      congrArg (Option.map LuaStream.inner) hprinted
    obtain ⟨tokens, htokens⟩ :=
      Option.isSome_iff_exists.mp ((isSome_tokens data).mpr h.zeroless)
    refine ⟨_, data.value, htext, ?_, (data.holds_value_iff hf).mpr h.exact⟩
    rw [load_toText hf htext, htokens]
    rfl

section AllDigits

/-- Floats that are displayed with all their digits. -/
@[reducible] def allDigitsText : FloatText := ⟨F64.allDigits, fun _ => F64.toF64_allDigits⟩

/-- The least integer below zero that is converted though a float cannot be it. -/
def inexactInteger : Int64 := -9007199254740993

end AllDigits

end Roxo
