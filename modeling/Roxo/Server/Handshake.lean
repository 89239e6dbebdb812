import Mathlib.Data.List.TakeDrop
import Roxo.Library.PercentCoding
import Roxo.Server.ClientRegistry
import Roxo.Snapshot.Variant

/-!
# The handshake in the query string

The plugin identifies itself in the query string of its first request, with escaped values, and the
server reads it with a decoder of its own. The decoder parses the two bytes after a percent sign as
a number, with a sign, and slices the text there, which panics inside of a character; on all other
texts it replaces exactly the escapes (`percentDecodeBytes_eq_iff`). What the plugin writes is
always read back (`handshake_survives`).
-/

namespace Roxo

open PercentCoding

/-- `u8::from_str_radix` of two bytes with radix 16. A leading plus sign is allowed. -/
def fromStrRadix (first second : UInt8) : Option UInt8 :=
  if first = plus then hexDigit second else hexByte first second

/-- `str::is_char_boundary`, by the bytes that follow. -/
def isCharBoundary : List UInt8 → Bool
  | [] => true
  | byte :: _ => byte < 128 || 192 ≤ byte

/-- The loop of `percent_decode`. It slices the text before it parses the two bytes. -/
def percentDecodeBytes : List UInt8 → MayPanic (List UInt8)
  | [] => some []
  | byte :: rest =>
    if byte = percent then
      match rest with
      | first :: second :: after =>
        if isCharBoundary after then
          match fromStrRadix first second with
          | some value => (percentDecodeBytes after).map (value :: ·)
          | none => (percentDecodeBytes (first :: second :: after)).map (percent :: ·)
        else none
      | rest => (percentDecodeBytes rest).map (percent :: ·)
    else if byte = plus then (percentDecodeBytes rest).map (space :: ·)
    else (percentDecodeBytes rest).map (byte :: ·)

def percentDecode (value : String) : MayPanic String :=
  (percentDecodeBytes (utf8 value.toList)).map fromUtf8Lossy

/-- `str::parse` for an unsigned number. -/
def parseU64 (text : String) : Option UInt64 :=
  let chars := text.toList
  let digits := if chars.head? = some '+' then chars.tail else chars
  let number := digits.foldl (fun number c => 10 * number + (c.toNat - '0'.toNat)) 0
  if digits ≠ [] ∧ digits.all Char.isDigit ∧ number < UInt64.size then some (.ofNat number) else none

def setField (handshake : ClientHandshake) (key value : String) : ClientHandshake :=
  match key with
  | "placeId" => { handshake with placeId := parseU64 value }
  | "gameId" => { handshake with gameId := parseU64 value }
  | "client" => { handshake with clientName := some value }
  | "clientVersion" => { handshake with clientVersion := some value }
  | "autoConnected" => { handshake with autoConnected := value = "true" || value = "1" }
  | "matchReason" => { handshake with matchReason := some value }
  | _ => handshake

def splitOnce (separator : Char) (text : List Char) : Option (List Char × List Char) :=
  match text.span (· ≠ separator) with
  | (_, []) => none
  | (before, _ :: after) => some (before, after)

/-- One pass of the loop over the pairs. -/
def readPair (handshake : ClientHandshake) (pair : List Char) : MayPanic ClientHandshake :=
  match splitOnce '=' pair with
  | none => some handshake
  | some (key, value) => (percentDecode (.ofList value)).map (setField handshake (.ofList key))

def parseHandshake (query : Option String) : MayPanic ClientHandshake :=
  match query with
  | none => some {}
  | some query => (query.toList.splitOn '&').foldlM readPair {}

/-! ## The plugin's side -/

/-- A table of handshake fields in the order of `pairs`, with the values as strings. -/
structure HandshakeTable where
  entries : List (String × String)
  nodup : (entries.map Prod.fst).Nodup
  plain : ∀ e ∈ entries, '&' ∉ e.1.toList ∧ '=' ∉ e.1.toList

def HandshakeTable.get (handshake : HandshakeTable) (key : String) : Option String :=
  handshake.entries.lookup key

/-- `HttpService:UrlEncode`. -/
def urlEncode (text : String) : String := .ofList (encode (utf8 text.toList))

def encodePart (entry : String × String) : String := entry.1 ++ "=" ++ urlEncode entry.2

def encodeHandshake (handshake : Option HandshakeTable) : String :=
  match handshake with
  | none => ""
  | some handshake =>
    let parts := handshake.entries.map encodePart
    if parts = [] then "" else "?" ++ "&".intercalate parts

/-- The query of a request, by what follows the path. -/
def queryOf (pathSuffix : String) : Option String :=
  match pathSuffix.toList with
  | '?' :: query => some (.ofList query)
  | _ => none

/-! ## Where the decoder replaces the escapes -/

/-- What follows a percent sign is no number with a sign, and no part of a character. -/
def PlainEscapes (bytes : List UInt8) : Prop :=
  ∀ first second after, percent :: first :: second :: after <:+ bytes →
    isCharBoundary after ∧ ¬(first = plus ∧ (hexDigit second).isSome)

theorem plainEscapes_cons {byte : UInt8} {rest : List UInt8} : PlainEscapes (byte :: rest) ↔
    (∀ first second after, byte = percent → rest = first :: second :: after →
      isCharBoundary after ∧ ¬(first = plus ∧ (hexDigit second).isSome)) ∧ PlainEscapes rest := by
  constructor
  · intro h
    refine ⟨?_, fun first second after hsuffix =>
      h first second after (hsuffix.trans (List.suffix_cons _ _))⟩
    rintro first second after rfl rfl
    exact h first second after List.suffix_rfl
  · rintro ⟨hhead, hrest⟩ first second after hsuffix
    rcases List.suffix_cons_iff.mp hsuffix with heq | hsuffix
    · obtain ⟨hbyte, hafter⟩ := List.cons_eq_cons.mp heq
      exact hhead first second after hbyte.symm hafter.symm
    · exact hrest first second after hsuffix

@[simp] theorem hexDigit_percent : hexDigit percent = none := by decide +kernel

@[simp] theorem hexDigit_plus : hexDigit plus = none := by decide +kernel

theorem ne_of_hexDigit {byte value : UInt8} (h : hexDigit byte = some value) :
    byte ≠ percent ∧ byte ≠ plus := by
  constructor <;> rintro rfl <;> simp at h

theorem hexByte_eq_some {high low value : UInt8} (h : hexByte high low = some value) :
    ∃ high' low', hexDigit high = some high' ∧ hexDigit low = some low' := by
  simp only [hexByte, Option.bind_eq_bind, Option.bind_eq_some_iff] at h
  obtain ⟨high', hhigh, low', hlow, -⟩ := h
  exact ⟨high', low', hhigh, hlow⟩

theorem hexByte_plus (low : UInt8) : hexByte plus low = none := by
  simp [hexByte]

theorem unescape_plus (rest : List UInt8) : unescape (plus :: rest) = space :: unescape rest := by
  have hne : plus ≠ percent := by decide +kernel
  rcases rest with _ | ⟨high, _ | ⟨low, after⟩⟩ <;> simp [unescape, hne]

/-- A number with a sign is no escape. -/
theorem unescape_sign {digit value : UInt8} (h : hexDigit digit = some value)
    (after : List UInt8) : unescape (percent :: plus :: digit :: after) =
      percent :: space :: digit :: unescape after := by
  obtain ⟨hpercent, hplus⟩ := ne_of_hexDigit h
  rw [unescape_not_hex (hexByte_plus _), unescape_plus, unescape_of_ne hpercent hplus]

theorem unescape_short {rest : List UInt8}
    (h : ∀ high low after, rest = high :: low :: after → False) :
    unescape (percent :: rest) = percent :: unescape rest := by
  rcases rest with _ | ⟨high, _ | ⟨low, after⟩⟩
  · simp [unescape]
  · simp [unescape]
  · exact (h high low after rfl).elim

theorem plainEscapes_of_ne {byte : UInt8} (h : byte ≠ percent) (rest : List UInt8) :
    PlainEscapes (byte :: rest) ↔ PlainEscapes rest := by
  rw [plainEscapes_cons, and_iff_right]
  exact fun _ _ _ hbyte => absurd hbyte h

/-- The decoder replaces exactly the escapes, or else its result is shorter. -/
def DecodesEscapes (bytes : List UInt8) : Prop :=
  PlainEscapes bytes ∧ percentDecodeBytes bytes = some (unescape bytes) ∨
    ¬PlainEscapes bytes ∧ ∀ decoded, percentDecodeBytes bytes = some decoded →
      decoded.length < (unescape bytes).length

theorem DecodesEscapes.length_le {bytes decoded : List UInt8} (h : DecodesEscapes bytes)
    (hdecoded : percentDecodeBytes bytes = some decoded) :
    decoded.length ≤ (unescape bytes).length := by
  rcases h with ⟨-, heq⟩ | ⟨-, hlt⟩
  · rw [Option.some.inj (heq.symm.trans hdecoded)]
  · exact Nat.le_of_lt (hlt decoded hdecoded)

/-- Both write the same byte and go on with the same rest. -/
theorem DecodesEscapes.step {bytes rest : List UInt8} {byte : UInt8}
    (hplain : PlainEscapes bytes ↔ PlainEscapes rest)
    (hdecode : percentDecodeBytes bytes = (percentDecodeBytes rest).map (byte :: ·))
    (hunescape : unescape bytes = byte :: unescape rest) (h : DecodesEscapes rest) :
    DecodesEscapes bytes := by
  rw [DecodesEscapes, hplain, hdecode, hunescape]
  rcases h with ⟨hrest, heq⟩ | ⟨hrest, hlt⟩
  · exact .inl ⟨hrest, by rw [heq, Option.map_some]⟩
  · refine .inr ⟨hrest, fun decoded hdecoded => ?_⟩
    obtain ⟨later, hlater, rfl⟩ := Option.map_eq_some_iff.mp hdecoded
    exact Nat.succ_lt_succ (hlt later hlater)

theorem decodesEscapes_escape {first second value : UInt8} {after : List UInt8}
    (hboundary : isCharBoundary after = true) (hvalue : fromStrRadix first second = some value)
    (hdecode : percentDecodeBytes (percent :: first :: second :: after) =
      (percentDecodeBytes after).map (value :: ·))
    (h : DecodesEscapes after) : DecodesEscapes (percent :: first :: second :: after) := by
  by_cases hsign : first = plus
  · rw [hsign, fromStrRadix, if_pos rfl] at hvalue
    subst hsign
    refine .inr ⟨fun hplain => ?_, fun decoded hdecoded => ?_⟩
    · exact (hplain _ _ _ List.suffix_rfl).2 ⟨rfl, by simp [hvalue]⟩
    · rw [hdecode] at hdecoded
      obtain ⟨later, hlater, rfl⟩ := Option.map_eq_some_iff.mp hdecoded
      have hle := h.length_le hlater
      rw [unescape_sign hvalue]
      simp only [List.length_cons]
      omega
  · rw [fromStrRadix, if_neg hsign] at hvalue
    obtain ⟨high, low, hhigh, hlow⟩ := hexByte_eq_some hvalue
    refine DecodesEscapes.step ?_ hdecode (unescape_hex hvalue after) h
    rw [plainEscapes_cons, plainEscapes_of_ne (ne_of_hexDigit hhigh).1,
      plainEscapes_of_ne (ne_of_hexDigit hlow).1, and_iff_right]
    rintro _ _ _ - ⟨⟩
    exact ⟨hboundary, fun h => hsign h.1⟩

theorem decodesEscapes_not_escape {first second : UInt8} {after : List UInt8}
    (hboundary : isCharBoundary after = true) (hvalue : fromStrRadix first second = none)
    (hdecode : percentDecodeBytes (percent :: first :: second :: after) =
      (percentDecodeBytes (first :: second :: after)).map (percent :: ·))
    (h : DecodesEscapes (first :: second :: after)) :
    DecodesEscapes (percent :: first :: second :: after) := by
  have hhex : hexByte first second = none := by
    by_cases hsign : first = plus
    · rw [hsign, hexByte_plus]
    · rwa [fromStrRadix, if_neg hsign] at hvalue
  refine DecodesEscapes.step ?_ hdecode (unescape_not_hex hhex after) h
  rw [plainEscapes_cons, and_iff_right]
  rintro _ _ _ - ⟨⟩
  refine ⟨hboundary, fun ⟨hsign, hdigit⟩ => ?_⟩
  rw [fromStrRadix, if_pos hsign] at hvalue
  simp [hvalue] at hdigit

theorem decodesEscapes (bytes : List UInt8) : DecodesEscapes bytes := by
  fun_induction percentDecodeBytes bytes with
  | case1 => exact .inl ⟨fun _ _ _ h => absurd (List.eq_nil_of_suffix_nil h) (by simp), rfl⟩
  | case2 first second after hboundary value hvalue ih =>
    have hdecode : percentDecodeBytes (percent :: first :: second :: after) =
        (percentDecodeBytes after).map (value :: ·) := by
      simp [percentDecodeBytes, hboundary, hvalue]
    exact decodesEscapes_escape hboundary hvalue hdecode ih
  | case3 first second after hboundary hvalue ih =>
    have hdecode : percentDecodeBytes (percent :: first :: second :: after) =
        (percentDecodeBytes (first :: second :: after)).map (percent :: ·) := by
      simp [percentDecodeBytes, hboundary, hvalue]
    exact decodesEscapes_not_escape hboundary hvalue hdecode ih
  | case4 first second after hboundary =>
    refine .inr ⟨fun hplain => hboundary (hplain _ _ _ List.suffix_rfl).1,
      fun decoded hdecoded => ?_⟩
    simp [percentDecodeBytes, hboundary] at hdecoded
  | case5 rest hshort ih =>
    refine ih.step ?_ ?_ (unescape_short hshort)
    · rw [plainEscapes_cons, and_iff_right]
      exact fun first second after _ hrest => (hshort first second after hrest).elim
    · rcases rest with _ | ⟨first, _ | ⟨second, after⟩⟩
      · simp [percentDecodeBytes]
      · simp [percentDecodeBytes]
      · exact (hshort first second after rfl).elim
  | case6 rest hne ih =>
    refine ih.step (plainEscapes_of_ne hne rest) ?_ (unescape_plus rest)
    rcases rest with _ | ⟨first, _ | ⟨second, after⟩⟩ <;> simp [percentDecodeBytes, hne]
  | case7 byte rest hpercent hplus ih =>
    refine ih.step (plainEscapes_of_ne hpercent rest) ?_ (unescape_of_ne hpercent hplus rest)
    rcases rest with _ | ⟨first, _ | ⟨second, after⟩⟩ <;>
      simp [percentDecodeBytes, hpercent, hplus]

theorem percentDecodeBytes_eq_iff (bytes : List UInt8) :
    percentDecodeBytes bytes = some (unescape bytes) ↔ PlainEscapes bytes := by
  rcases decodesEscapes bytes with ⟨hplain, heq⟩ | ⟨hplain, hlt⟩
  · exact iff_of_true heq hplain
  · exact iff_of_false (fun heq => Nat.lt_irrefl _ (hlt _ heq)) hplain

/-! ## What the plugin writes -/

theorem plainEscapes_encode (bytes : List UInt8) : PlainEscapes (utf8 (encode bytes)) := by
  intro first second after hsuffix
  refine ⟨?_, fun h => ?_⟩
  · cases after with
    | nil => rfl
    | cons byte after =>
      have hmem : byte ∈ utf8 (encode bytes) := hsuffix.subset (by simp)
      simp [isCharBoundary, (mem_utf8_encode hmem).1]
  · have hmem : first ∈ utf8 (encode bytes) := hsuffix.subset (by simp)
    exact (mem_utf8_encode hmem).2 h.1

theorem percentDecode_urlEncode (text : String) : percentDecode (urlEncode text) = some text := by
  rw [percentDecode, urlEncode, String.toList_ofList,
    (percentDecodeBytes_eq_iff _).mpr (plainEscapes_encode _), unescape_encode, Option.map_some,
    fromUtf8Lossy_utf8]

theorem splitOnce_append {separator : Char} {before : List Char} (h : separator ∉ before)
    (after : List Char) :
    splitOnce separator (before ++ separator :: after) = some (before, after) := by
  have hall : ∀ c ∈ before, decide (c ≠ separator) = true := fun c hc =>
    decide_eq_true fun heq => h (heq ▸ hc)
  rw [splitOnce, List.span_eq_takeWhile_dropWhile, List.takeWhile_append_of_pos hall,
    List.dropWhile_append_of_pos hall]
  simp

theorem toList_encodePart (entry : String × String) : (encodePart entry).toList =
    entry.1.toList ++ '=' :: encode (utf8 entry.2.toList) := by
  simp [encodePart, urlEncode]

theorem readPair_encodePart (handshake : ClientHandshake) {entry : String × String}
    (h : '=' ∉ entry.1.toList) : readPair handshake (encodePart entry).toList =
      some (setField handshake entry.1 entry.2) := by
  have hdecode := percentDecode_urlEncode entry.2
  rw [urlEncode] at hdecode
  rw [readPair, toList_encodePart, splitOnce_append h]
  simp [hdecode]

theorem foldlM_readPair {entries : List (String × String)}
    (h : ∀ e ∈ entries, '=' ∉ e.1.toList) (handshake : ClientHandshake) :
    (entries.map fun entry => (encodePart entry).toList).foldlM readPair handshake =
      some (entries.foldl (fun handshake e => setField handshake e.1 e.2) handshake) := by
  induction entries generalizing handshake with
  | nil => rfl
  | cons entry entries ih =>
    obtain ⟨hentry, hentries⟩ := List.forall_mem_cons.mp h
    rw [List.map_cons, List.foldlM_cons, readPair_encodePart handshake hentry]
    exact ih hentries _

/-- The pairs do not run into each other. -/
theorem separator_not_mem_encodePart {entry : String × String} (h : '&' ∉ entry.1.toList) :
    '&' ∉ (encodePart entry).toList := by
  rw [toList_encodePart, List.mem_append, List.mem_cons]
  rintro (hkey | hseparator | hvalue)
  · exact h hkey
  · exact absurd hseparator (by decide)
  · exact absurd (mem_encode hvalue) (by decide)

theorem queryOf_append (query : String) : queryOf ("?" ++ query) = some query := by
  simp [queryOf]

theorem parseHandshake_encodeHandshake (handshake : Option HandshakeTable) :
    parseHandshake (queryOf (encodeHandshake handshake)) =
      some ((handshake.elim [] HandshakeTable.entries).foldl
        (fun handshake e => setField handshake e.1 e.2) {}) := by
  cases handshake with
  | none => rfl
  | some handshake =>
    have hplain := handshake.plain
    have hread := foldlM_readPair (fun e he => (hplain e he).2) {}
    cases hentries : handshake.entries with
    | nil => simp [encodeHandshake, hentries, queryOf, parseHandshake]
    | cons entry entries =>
      rw [hentries] at hplain hread
      have hseparator : ∀ part ∈ ((entry :: entries).map encodePart).map String.toList,
          '&' ∉ part := by
        simp only [List.map_map, List.mem_map, Function.comp_apply]
        rintro _ ⟨e, he, rfl⟩
        exact separator_not_mem_encodePart (hplain e he).1
      have hsplit := List.splitOn_intercalate '&' hseparator (by simp)
      have hparts : encodeHandshake (some handshake) =
          "?" ++ "&".intercalate ((entry :: entries).map encodePart) := by
        rw [encodeHandshake, hentries]
        exact if_neg (by simp)
      rw [hparts, queryOf_append, parseHandshake, String.toList_intercalate]
      change (List.splitOn '&' (['&'].intercalate _)).foldlM readPair {} = _
      rw [hsplit, List.map_map, Option.elim_some, hentries]
      exact hread

/-- A field that is set from one key only. -/
theorem foldl_setField {field : ClientHandshake → Option String} {key : String}
    (hset : ∀ handshake key' value,
      field (setField handshake key' value) = if key' = key then some value else field handshake)
    {entries : List (String × String)} (hnodup : (entries.map Prod.fst).Nodup)
    (handshake : ClientHandshake) :
    field (entries.foldl (fun handshake e => setField handshake e.1 e.2) handshake) =
      (entries.lookup key).or (field handshake) := by
  induction entries generalizing handshake with
  | nil => rfl
  | cons entry entries ih =>
    obtain ⟨hentry, hentries⟩ := List.nodup_cons.mp hnodup
    rw [List.foldl_cons, ih hentries, hset, List.lookup_cons]
    by_cases hkey : entry.1 = key
    · have hnone : entries.lookup key = none := by
        refine List.lookup_eq_none_iff.mpr fun e he => ?_
        have hne : key ≠ e.1 := by
          rintro rfl
          exact hentry (hkey ▸ List.mem_map_of_mem he)
        simpa using hne
      simp [hkey, hnone]
    · have hne : (key == entry.1) = false := beq_false_of_ne fun h => hkey h.symm
      simp [hkey, hne]

theorem clientName_setField (handshake : ClientHandshake) (key value : String) :
    (setField handshake key value).clientName =
      if key = "client" then some value else handshake.clientName := by
  unfold setField
  split <;> simp_all

theorem clientVersion_setField (handshake : ClientHandshake) (key value : String) :
    (setField handshake key value).clientVersion =
      if key = "clientVersion" then some value else handshake.clientVersion := by
  unfold setField
  split <;> simp_all

theorem matchReason_setField (handshake : ClientHandshake) (key value : String) :
    (setField handshake key value).matchReason =
      if key = "matchReason" then some value else handshake.matchReason := by
  unfold setField
  split <;> simp_all

/-- The handshake has the values of the table. -/
structure SameHandshake (handshake : Option HandshakeTable) (read : ClientHandshake) : Prop where
  clientName : read.clientName = handshake.bind (HandshakeTable.get · "client")
  clientVersion : read.clientVersion = handshake.bind (HandshakeTable.get · "clientVersion")
  matchReason : read.matchReason = handshake.bind (HandshakeTable.get · "matchReason")

theorem sameHandshake (handshake : Option HandshakeTable) :
    SameHandshake handshake ((handshake.elim [] HandshakeTable.entries).foldl
      (fun handshake e => setField handshake e.1 e.2) {}) := by
  cases handshake with
  | none => exact ⟨rfl, rfl, rfl⟩
  | some handshake =>
    constructor
    · exact (foldl_setField clientName_setField handshake.nodup _).trans (Option.or_none ..)
    · exact (foldl_setField clientVersion_setField handshake.nodup _).trans (Option.or_none ..)
    · exact (foldl_setField matchReason_setField handshake.nodup _).trans (Option.or_none ..)

/-- The decoder replaces exactly the escapes of a text whose escapes are plain; what the plugin
writes is read back. -/
theorem handshake_survives (value : String) (handshake : Option HandshakeTable) :
    (percentDecodeBytes (utf8 value.toList) = some (unescape (utf8 value.toList)) ↔
      PlainEscapes (utf8 value.toList)) ∧
    ∃ read, parseHandshake (queryOf (encodeHandshake handshake)) = some read ∧
      SameHandshake handshake read :=
  ⟨percentDecodeBytes_eq_iff _, _, parseHandshake_encodeHandshake handshake,
    sameHandshake handshake⟩

/-- A character after half an escape, and a number with a sign. -/
theorem not_percentDecode_escape : percentDecode "%aé" = none ∧
    percentDecodeBytes (utf8 "%+5".toList) ≠ some (unescape (utf8 "%+5".toList)) := by
  decide +kernel

end Roxo
