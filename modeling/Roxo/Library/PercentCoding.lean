import Mathlib.Data.Nat.Notation

/-!
# Percent-encoding and UTF-8

Bytes outside a set of unreserved characters are written as a percent sign and two hexadecimal
digits. `unescape` replaces exactly those sequences, and plus signs by spaces, and reads back what
`encode` writes (`unescape_encode`). Bytes that are not UTF-8 are read with replacement characters
for what is malformed; text is read back from its own bytes (`fromUtf8Lossy_utf8`).
-/

namespace PercentCoding

/-- The bytes of a text. -/
def utf8 (chars : List Char) : List UInt8 := chars.flatMap String.utf8EncodeChar

@[simp] theorem utf8_nil : utf8 [] = [] := rfl

@[simp] theorem utf8_cons (c : Char) (chars : List Char) :
    utf8 (c :: chars) = String.utf8EncodeChar c ++ utf8 chars := List.flatMap_cons

@[simp] theorem utf8_append (chars chars' : List Char) :
    utf8 (chars ++ chars') = utf8 chars ++ utf8 chars' := List.flatMap_append

/-! ## Escapes -/

def percent : UInt8 := '%'.toUInt8

def plus : UInt8 := '+'.toUInt8

def space : UInt8 := ' '.toUInt8

def hexDigit (byte : UInt8) : Option UInt8 :=
  if '0'.toUInt8 ≤ byte ∧ byte ≤ '9'.toUInt8 then some (byte - '0'.toUInt8)
  else if 'A'.toUInt8 ≤ byte ∧ byte ≤ 'F'.toUInt8 then some (byte - 'A'.toUInt8 + 10)
  else if 'a'.toUInt8 ≤ byte ∧ byte ≤ 'f'.toUInt8 then some (byte - 'a'.toUInt8 + 10)
  else none

/-- The byte that two hexadecimal digits stand for. -/
def hexByte (high low : UInt8) : Option UInt8 := do
  some (16 * (← hexDigit high) + (← hexDigit low))

/-- Percent signs with two hexadecimal digits and plus signs are replaced; all other bytes stay. -/
def unescape : List UInt8 → List UInt8
  | [] => []
  | byte :: rest =>
    if byte = percent then
      match rest with
      | high :: low :: after =>
        match hexByte high low with
        | some value => value :: unescape after
        | none => byte :: unescape (high :: low :: after)
      | rest => byte :: unescape rest
    else if byte = plus then space :: unescape rest
    else byte :: unescape rest

def isUnreserved (c : Char) : Bool := c.isAlphanum || c = '-' || c = '_' || c = '.' || c = '~'

def hexChar (digit : UInt8) : Char :=
  Char.ofUInt8 (if digit < 10 then '0'.toUInt8 + digit else 'A'.toUInt8 + (digit - 10))

def encodeByte (byte : UInt8) : List Char :=
  if isUnreserved (Char.ofUInt8 byte) then [Char.ofUInt8 byte]
  else ['%', hexChar (byte / 16), hexChar (byte % 16)]

/-- Every byte outside the unreserved set is escaped. -/
def encode (bytes : List UInt8) : List Char := bytes.flatMap encodeByte

theorem forall_byte {P : UInt8 → Prop} (h : ∀ n < 256, P (UInt8.ofNat n)) (byte : UInt8) :
    P byte := by
  have := h byte.toNat byte.toNat_lt
  rwa [UInt8.ofNat_toNat] at this

theorem unescape_of_ne {byte : UInt8} (hpercent : byte ≠ percent) (hplus : byte ≠ plus)
    (rest : List UInt8) : unescape (byte :: rest) = byte :: unescape rest := by
  rcases rest with _ | ⟨high, _ | ⟨low, after⟩⟩ <;> simp [unescape, hpercent, hplus]

theorem unescape_hex {high low value : UInt8} (h : hexByte high low = some value)
    (after : List UInt8) :
    unescape (percent :: high :: low :: after) = value :: unescape after := by
  rw [unescape, if_pos rfl]
  simp only [h]

theorem unescape_not_hex {high low : UInt8} (h : hexByte high low = none)
    (after : List UInt8) : unescape (percent :: high :: low :: after) =
      percent :: unescape (high :: low :: after) := by
  rw [unescape, if_pos rfl]
  simp only [h]

/-- A byte is written as it is, or as three. -/
def IsEncoded (byte : UInt8) : Prop :=
  utf8 (encodeByte byte) = [byte] ∧ byte ≠ percent ∧ byte ≠ plus ∨
    utf8 (encodeByte byte) =
        [percent, (hexChar (byte / 16)).toUInt8, (hexChar (byte % 16)).toUInt8] ∧
      hexByte (hexChar (byte / 16)).toUInt8 (hexChar (byte % 16)).toUInt8 = some byte

instance : DecidablePred IsEncoded := fun _ => inferInstanceAs (Decidable (_ ∨ _))

theorem isEncoded (byte : UInt8) : IsEncoded byte := forall_byte (by decide +kernel) byte

theorem unescape_encode (bytes : List UInt8) : unescape (utf8 (encode bytes)) = bytes := by
  induction bytes with
  | nil => rfl
  | cons byte bytes ih =>
    rw [encode, List.flatMap_cons, utf8_append]
    change unescape (utf8 (encodeByte byte) ++ utf8 (encode bytes)) = _
    rcases isEncoded byte with ⟨hbyte, hpercent, hplus⟩ | ⟨hbyte, hhex⟩
    · rw [hbyte, List.singleton_append, unescape_of_ne hpercent hplus, ih]
    · rw [hbyte]
      exact (unescape_hex hhex _).trans (congrArg (byte :: ·) ih)

theorem mem_encode {bytes : List UInt8} {c : Char} (h : c ∈ encode bytes) :
    isUnreserved c ∨ c = '%' := by
  have hbyte : ∀ byte, (encodeByte byte).all fun c => isUnreserved c || c = '%' :=
    forall_byte (by decide +kernel)
  obtain ⟨byte, -, hc⟩ := List.mem_flatMap.mp h
  simpa using List.all_eq_true.mp (hbyte byte) c hc

/-- What is written is plain ASCII without plus signs. -/
theorem mem_utf8_encode {bytes : List UInt8} {b : UInt8} (h : b ∈ utf8 (encode bytes)) :
    b < 128 ∧ b ≠ plus := by
  have hbyte : ∀ byte, (utf8 (encodeByte byte)).all fun b => b < 128 && b ≠ plus :=
    forall_byte (by decide +kernel)
  induction bytes with
  | nil => simp [encode] at h
  | cons byte bytes ih =>
    rw [encode, List.flatMap_cons, utf8_append, List.mem_append] at h
    rcases h with h | h
    · simpa using List.all_eq_true.mp (hbyte byte) b h
    · exact ih h

/-! ## Malformed UTF-8 -/

/-- The ranges of the bytes that follow the first byte of a character. -/
def laterBytes (first : UInt8) : List (UInt8 × UInt8) :=
  if 0xC2 ≤ first ∧ first ≤ 0xDF then [(0x80, 0xBF)]
  else if first = 0xE0 then [(0xA0, 0xBF), (0x80, 0xBF)]
  else if first = 0xED then [(0x80, 0x9F), (0x80, 0xBF)]
  else if 0xE1 ≤ first ∧ first ≤ 0xEF then [(0x80, 0xBF), (0x80, 0xBF)]
  else if first = 0xF0 then [(0x90, 0xBF), (0x80, 0xBF), (0x80, 0xBF)]
  else if 0xF1 ≤ first ∧ first ≤ 0xF3 then [(0x80, 0xBF), (0x80, 0xBF), (0x80, 0xBF)]
  else if first = 0xF4 then [(0x80, 0x8F), (0x80, 0xBF), (0x80, 0xBF)]
  else []

/-- How many bytes are in their ranges. -/
def countInRange : List (UInt8 × UInt8) → List UInt8 → ℕ
  | (low, high) :: ranges, byte :: bytes =>
    if low ≤ byte ∧ byte ≤ high then countInRange ranges bytes + 1 else 0
  | _, _ => 0

/-- The characters from bytes, of which the first few still belong to the last character. A
malformed sequence is as long as it could be the start of a character. -/
def readUtf8 : ℕ → List UInt8 → List Char
  | _, [] => []
  | skip + 1, _ :: rest => readUtf8 skip rest
  | 0, byte :: rest =>
    match (byte :: rest).toByteArray.utf8DecodeChar? 0 with
    | some c => c :: readUtf8 (c.utf8Size - 1) rest
    | none => '\uFFFD' :: readUtf8 (countInRange (laterBytes byte) rest) rest

def fromUtf8Lossy (bytes : List UInt8) : String := .ofList (readUtf8 0 bytes)

theorem readUtf8_append (skipped bytes : List UInt8) :
    readUtf8 skipped.length (skipped ++ bytes) = readUtf8 0 bytes := by
  induction skipped with
  | nil => rfl
  | cons _ skipped ih => exact ih

theorem readUtf8_utf8 (chars : List Char) : readUtf8 0 (utf8 chars) = chars := by
  induction chars with
  | nil => rfl
  | cons c chars ih =>
    have hdecode : (utf8 (c :: chars)).toByteArray.utf8DecodeChar? 0 = some c :=
      List.utf8DecodeChar?_utf8Encode_cons
    have hlength := String.length_utf8EncodeChar c
    rw [utf8_cons] at hdecode ⊢
    cases hbytes : String.utf8EncodeChar c with
    | nil =>
      rw [hbytes, List.length_nil] at hlength
      exact absurd hlength (Nat.ne_of_lt c.utf8Size_pos)
    | cons byte later =>
      rw [hbytes, List.cons_append] at hdecode
      rw [hbytes, List.length_cons] at hlength
      rw [List.cons_append, readUtf8, hdecode]
      dsimp only
      rw [← hlength, Nat.add_sub_cancel, readUtf8_append, ih]

@[simp] theorem fromUtf8Lossy_utf8 (text : String) : fromUtf8Lossy (utf8 text.toList) = text := by
  rw [fromUtf8Lossy, readUtf8_utf8, String.ofList_toList]

end PercentCoding
