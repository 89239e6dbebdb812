import Mathlib.Data.String.Basic
import Roxo.Library.SortedMap
import Roxo.SnapshotMiddleware.Json

/-!
# Localization tables

A table is a CSV file on disk and a JSON text in Studio. The row of an entry is read back as the
entry (`Clean.rewritten`) if the entry has been read from a file. In general a locale that is named
like a fixed column is read as that column (`column_rewritten`).
-/

namespace Roxo

structure LocalizationEntry where
  key : Option String := none
  context : Option String := none
  example' : Option String := none
  source : Option String := none
  values : SortedMap String String := ∅
  deriving DecidableEq

namespace LocalizationEntry

/-! ## From CSV -/

/-- The cell of an entry in a column. -/
def setColumn (entry : LocalizationEntry) (header value : String) : LocalizationEntry :=
  if header = "" ∨ value = "" then entry
  else if header = "Key" then { entry with key := some value }
  else if header = "Source" then { entry with source := some value }
  else if header = "Context" then { entry with context := some value }
  else if header = "Example" then { entry with example' := some value }
  else { entry with values := entry.values.insert header value }

def ofRecord (headers record : List String) : LocalizationEntry :=
  (headers.zip record).foldl (fun entry cell => entry.setColumn cell.1 cell.2) {}

/-- An entry with neither is not kept. -/
def identified (entry : LocalizationEntry) : Bool := entry.key.isSome || entry.source.isSome

def ofRecords (headers : List String) (records : List (List String)) : List LocalizationEntry :=
  (records.map (ofRecord headers)).filter identified

/-! ## JSON -/

/-- A field that is skipped when it is `None`. -/
def field (name : String) (value : Option String) : List (String × Json) :=
  match value with
  | some s => [(name, .string s)]
  | none => []

def toJson (entry : LocalizationEntry) : Json :=
  .object (field "key" entry.key ++ field "context" entry.context ++
    field "example" entry.example' ++ field "source" entry.source ++
    [("values", .object (entry.values.entries.map fun e => (e.1, .string e.2)))])

/-- `Option<Cow<str>>`. -/
def optionalText : Json → Option (Option String)
  | .null => some none
  | .string s => some (some s)
  | _ => none

/-- `BTreeMap<Cow<str>, Cow<str>>`. -/
def textMap : Json → Option (SortedMap String String)
  | .object entries =>
    (entries.mapM fun (e : String × Json) => e.2.asStr.map (e.1, ·)).map
      (∅ : SortedMap String String).extend
  | _ => none

/-- The fields that have been read. -/
structure Fields where
  key : Option (Option String) := none
  context : Option (Option String) := none
  example' : Option (Option String) := none
  source : Option (Option String) := none
  values : Option (SortedMap String String) := none

/-- Reads one field. A field that is read twice is an error, and other fields are ignored. -/
def Fields.visit (fields : Fields) (name : String) (value : Json) : Option Fields :=
  if name = "key" then
    if fields.key.isSome then none
    else (optionalText value).map fun key => { fields with key := some key }
  else if name = "context" then
    if fields.context.isSome then none
    else (optionalText value).map fun context => { fields with context := some context }
  else if name = "example" ∨ name = "examples" then
    if fields.example'.isSome then none
    else (optionalText value).map fun example' => { fields with example' := some example' }
  else if name = "source" then
    if fields.source.isSome then none
    else (optionalText value).map fun source => { fields with source := some source }
  else if name = "values" then
    if fields.values.isSome then none
    else (textMap value).map fun values => { fields with values := some values }
  else some fields

/-- Reads some fields. -/
def Fields.visitAll (fields : Fields) (entries : List (String × Json)) : Option Fields :=
  entries.foldlM (fun fields e => fields.visit e.1 e.2) fields

/-- `values` has to be there. -/
def Fields.finish (fields : Fields) : Option LocalizationEntry :=
  fields.values.map fun values =>
    { key := fields.key.getD none, context := fields.context.getD none
      example' := fields.example'.getD none, source := fields.source.getD none, values }

def ofJson : Json → Option LocalizationEntry
  | .object entries => (Fields.visitAll {} entries).bind Fields.finish
  | .array [key, context, example', source, values] => do
    let key ← optionalText key
    let context ← optionalText context
    let example' ← optionalText example'
    let source ← optionalText source
    let values ← textMap values
    some { key, context, example', source, values }
  | _ => none

/-- `Vec<LocalizationEntry>`. -/
def tableOfJson : Json → Option (List LocalizationEntry)
  | .array items => items.mapM ofJson
  | _ => none

def tableToJson (entries : List LocalizationEntry) : Json := .array (entries.map toJson)

/-! ## To CSV -/

/-- The order of `Option<Cow<str>>`. -/
def sourceLe (a b : LocalizationEntry) : Bool :=
  match a.source, b.source with
  | none, _ => true
  | some _, none => false
  | some s, some t => s ≤ t

/-- `sort_by` is stable. -/
def sortBySource (entries : List LocalizationEntry) : List LocalizationEntry :=
  entries.mergeSort sourceLe

def fixedHeaders : List String := ["Key", "Source", "Context", "Example"]

/-- The locales of the entries in order. -/
def extraHeaders (entries : List LocalizationEntry) : List String :=
  ((∅ : SortedMap String Unit).extend
    (entries.flatMap fun entry => entry.values.keys.map (·, ()))).keys

def toRecord (extra : List String) (entry : LocalizationEntry) : List String :=
  [entry.key.getD "", entry.source.getD "", entry.context.getD "", entry.example'.getD ""] ++
    extra.map fun header => (entry.values.lookup header).getD ""

def toRecords (entries : List LocalizationEntry) : List (List String) :=
  (fixedHeaders ++ extraHeaders entries) :: entries.map (toRecord (extraHeaders entries))

/-! ## Reading the JSON of an entry -/

variable {entry : LocalizationEntry} {entries : List LocalizationEntry}

theorem textMap_entries (m : SortedMap String String) :
    textMap (.object (m.entries.map fun e => (e.1, .string e.2))) = some m := by
  have hmap : ∀ l : List (String × String),
      (l.map fun e => (e.1, Json.string e.2)).mapM (fun e => e.2.asStr.map (e.1, ·)) = some l := by
    intro l
    induction l with
    | nil => rfl
    | cons e l ih =>
      rw [List.map_cons, List.mapM_cons, ih]
      rfl
  refine (congrArg (Option.map _) (hmap m.entries)).trans ?_
  rw [Option.map_some, SortedMap.extend_entries]

theorem Fields.visitAll_append (fields : Fields) (l l' : List (String × Json)) :
    fields.visitAll (l ++ l') = (fields.visitAll l).bind fun fields => fields.visitAll l' :=
  List.foldlM_append

/-- Reading a field that has been written. -/
theorem Fields.visitAll_field {name : String} {value : Option String} {fields fields' : Fields}
    (hsome : ∀ s, value = some s → fields.visit name (.string s) = some fields')
    (hnone : value = none → fields = fields') :
    fields.visitAll (field name value) = some fields' := by
  cases value with
  | none => exact congrArg some (hnone rfl)
  | some s => exact (congrArg (·.bind some) (hsome s rfl)).trans rfl

/-- The JSON of an entry is read as the entry. -/
theorem ofJson_toJson (entry : LocalizationEntry) : ofJson entry.toJson = some entry := by
  obtain ⟨key, context, example', source, values⟩ := entry
  have hkey : Fields.visitAll {} (field "key" key) = some { key := key.map some } :=
    Fields.visitAll_field (by rintro s rfl; rfl) (by rintro rfl; rfl)
  have hcontext : Fields.visitAll { key := key.map some } (field "context" context) =
      some { key := key.map some, context := context.map some } :=
    Fields.visitAll_field (by rintro s rfl; rfl) (by rintro rfl; rfl)
  have hexample : Fields.visitAll { key := key.map some, context := context.map some }
      (field "example" example') = some
        { key := key.map some, context := context.map some, example' := example'.map some } :=
    Fields.visitAll_field (by rintro s rfl; rfl) (by rintro rfl; rfl)
  have hsource : Fields.visitAll
      { key := key.map some, context := context.map some, example' := example'.map some }
      (field "source" source) = some
        { key := key.map some, context := context.map some, example' := example'.map some
          source := source.map some } :=
    Fields.visitAll_field (by rintro s rfl; rfl) (by rintro rfl; rfl)
  have hvalues : ∀ fields : Fields, fields.values = none → fields.visitAll
      [("values", .object (values.entries.map fun e => (e.1, .string e.2)))] =
        some { fields with values := some values } := by
    intro fields hnone
    show ((fields.visit "values" _).bind some) = _
    simp [Fields.visit, hnone, textMap_entries]
  show (Fields.visitAll {} _).bind Fields.finish = _
  rw [Fields.visitAll_append, Fields.visitAll_append, Fields.visitAll_append,
    Fields.visitAll_append, hkey, Option.bind_some, hcontext, Option.bind_some, hexample,
    Option.bind_some, hsource, Option.bind_some, hvalues _ rfl, Option.bind_some]
  cases key <;> cases context <;> cases example' <;> cases source <;> rfl

theorem tableOfJson_tableToJson (entries : List LocalizationEntry) :
    tableOfJson (tableToJson entries) = some entries := by
  show (entries.map toJson).mapM ofJson = some entries
  induction entries with
  | nil => rfl
  | cons entry entries ih =>
    rw [List.map_cons, List.mapM_cons, ih, ofJson_toJson]
    rfl

/-! ## Columns -/

/-- What an entry has in the column of a CSV file. -/
def column (entry : LocalizationEntry) (header : String) : Option String :=
  if header = "" then none
  else if header = "Key" then entry.key
  else if header = "Source" then entry.source
  else if header = "Context" then entry.context
  else if header = "Example" then entry.example'
  else entry.values.lookup header

/-- No locale of an entry with this name is read back as one. -/
def Reserved (header : String) : Prop := header = "" ∨ header ∈ fixedHeaders

instance (header : String) : Decidable (Reserved header) :=
  inferInstanceAs (Decidable (_ ∨ _))

/-- As an entry is that is read from a file: it has texts only, in columns that there can be. -/
structure Clean (entry : LocalizationEntry) : Prop where
  filled : ∀ header, entry.column header ≠ some ""
  named : ∀ header, Reserved header → entry.values.lookup header = none

theorem column_setColumn (entry : LocalizationEntry) (header value header' : String) :
    (entry.setColumn header value).column header' =
      if header' = header ∧ header ≠ "" ∧ value ≠ "" then some value else entry.column header' := by
  by_cases hskip : header = "" ∨ value = ""
  · rw [setColumn, if_pos hskip, if_neg fun h => h.2.1 (hskip.resolve_right h.2.2)]
  · obtain ⟨hheader, hvalue⟩ := not_or.mp hskip
    by_cases hkey : header = "Key"
    · subst hkey
      by_cases h : header' = "Key" <;> simp [setColumn, column, hvalue, h]
    by_cases hsource : header = "Source"
    · subst hsource
      by_cases h : header' = "Source" <;> simp [setColumn, column, hvalue, h]
    by_cases hcontext : header = "Context"
    · subst hcontext
      by_cases h : header' = "Context" <;> simp [setColumn, column, hvalue, h]
    by_cases hexample : header = "Example"
    · subst hexample
      by_cases h : header' = "Example" <;> simp [setColumn, column, hvalue, h]
    · by_cases h : header' = header
      · subst h
        simp [setColumn, column, hheader, hvalue, hkey, hsource, hcontext, hexample,
          SortedMap.lookup_insert]
      · have h' : header ≠ header' := Ne.symm h
        simp [setColumn, column, hheader, hvalue, hkey, hsource, hcontext, hexample,
          SortedMap.lookup_insert, h, h']

theorem column_of_not_reserved {header : String} (h : ¬ Reserved header) :
    entry.column header = entry.values.lookup header := by
  unfold Reserved fixedHeaders at h
  simp only [List.mem_cons, List.not_mem_nil, or_false, not_or] at h
  obtain ⟨hempty, hkey, hsource, hcontext, hexample⟩ := h
  unfold column
  rw [if_neg hempty, if_neg hkey, if_neg hsource, if_neg hcontext, if_neg hexample]

theorem named_setColumn (h : ∀ header, Reserved header → entry.values.lookup header = none)
    (header value : String) : ∀ header', Reserved header' →
      (entry.setColumn header value).values.lookup header' = none := by
  intro header' hr
  have hne : (entry.setColumn header value).values.lookup header' = entry.values.lookup header' := by
    unfold setColumn
    unfold Reserved fixedHeaders at hr
    grind [SortedMap.lookup_insert]
  rw [hne, h header' hr]

theorem Clean.setColumn (h : Clean entry) (header value : String) :
    Clean (entry.setColumn header value) where
  filled header' := by
    rw [column_setColumn]
    split
    · next hv => exact fun heq => hv.2.2 (Option.some.inj heq)
    · exact h.filled header'
  named := named_setColumn h.named header value

theorem clean_default : Clean {} where
  filled header := by
    unfold column
    grind [SortedMap.lookup_empty]
  named header _ := rfl

theorem clean_ofRecord (headers record : List String) : Clean (ofRecord headers record) := by
  unfold ofRecord
  generalize headers.zip record = cells
  suffices ∀ entry : LocalizationEntry, Clean entry →
      Clean (cells.foldl (fun entry cell => entry.setColumn cell.1 cell.2) entry) from
    this _ clean_default
  induction cells with
  | nil => exact fun _ h => h
  | cons cell cells ih => exact fun entry h => ih _ (h.setColumn cell.1 cell.2)

/-- An entry is what it has in its columns. -/
theorem ext_column {entry' : LocalizationEntry}
    (h : ∀ header, Reserved header → entry.values.lookup header = none)
    (h' : ∀ header, Reserved header → entry'.values.lookup header = none)
    (hcolumn : ∀ header, entry.column header = entry'.column header) : entry = entry' := by
  have hvalues : entry.values = entry'.values := by
    refine SortedMap.ext_lookup fun header => ?_
    by_cases hr : Reserved header
    · rw [h header hr, h' header hr]
    · rw [← column_of_not_reserved hr, ← column_of_not_reserved hr, hcolumn]
  have hkey := hcolumn "Key"
  have hsource := hcolumn "Source"
  have hcontext := hcolumn "Context"
  have hexample := hcolumn "Example"
  obtain ⟨key, context, example', source, values⟩ := entry
  obtain ⟨_, _, _, _, _⟩ := entry'
  cases hvalues
  cases (show key = _ from hkey)
  cases (show context = _ from hcontext)
  cases (show example' = _ from hexample)
  cases (show source = _ from hsource)
  rfl

/-! ## What is read back -/

/-- A cell counts if it is not empty. -/
def nonEmpty (cell : Option String) : Option String := cell.filter (· ≠ "")

/-- The entry that is read from the row of an entry. -/
def rewritten (entry : LocalizationEntry) : LocalizationEntry where
  key := (nonEmpty (entry.values.lookup "Key")).or (nonEmpty entry.key)
  source := (nonEmpty (entry.values.lookup "Source")).or (nonEmpty entry.source)
  context := (nonEmpty (entry.values.lookup "Context")).or (nonEmpty entry.context)
  example' := (nonEmpty (entry.values.lookup "Example")).or (nonEmpty entry.example')
  values := entry.values.retain fun header value => !Reserved header && value ≠ ""

theorem nonEmpty_eq (cell : Option String) :
    nonEmpty cell = if cell.getD "" ≠ "" then some (cell.getD "") else none := by
  unfold nonEmpty
  cases cell with
  | none => rfl
  | some s => simp [Option.filter]

theorem nonEmpty_ne (cell : Option String) : nonEmpty cell ≠ some "" := by
  cases cell with
  | none => exact fun h => nomatch h
  | some s =>
    unfold nonEmpty
    grind

theorem lookup_rewritten (entry : LocalizationEntry) (header : String) :
    entry.rewritten.values.lookup header =
      if Reserved header then none else nonEmpty (entry.values.lookup header) := by
  refine (SortedMap.lookup_retain _).trans ?_
  unfold nonEmpty
  cases entry.values.lookup header with
  | none => simp
  | some s => by_cases hr : Reserved header <;> simp [Option.filter, hr]

/-- Where a locale takes the place of a fixed column. -/
theorem column_rewritten (entry : LocalizationEntry) (header : String) :
    entry.rewritten.column header = if header = "" then none
      else (nonEmpty (entry.values.lookup header)).or
        (if header ∈ fixedHeaders then nonEmpty (entry.column header) else none) := by
  by_cases hr : Reserved header
  · rcases hr with rfl | hmem
    · rfl
    · rw [if_pos hmem]
      unfold fixedHeaders at hmem
      simp only [List.mem_cons, List.not_mem_nil, or_false] at hmem
      rcases hmem with rfl | rfl | rfl | rfl <;> simp [column, rewritten]
  · rw [column_of_not_reserved hr, lookup_rewritten, if_neg hr, if_neg fun h => hr (.inl h),
      if_neg fun h => hr (.inr h), Option.or_none]

theorem clean_rewritten (entry : LocalizationEntry) : Clean entry.rewritten where
  filled header := by
    rw [column_rewritten]
    split
    · exact fun h => nomatch h
    · split
      · intro h
        rcases Option.or_eq_some_iff.mp h with h | ⟨-, h⟩
        · exact nonEmpty_ne _ h
        · exact nonEmpty_ne _ h
      · rw [Option.or_none]
        exact nonEmpty_ne _
  named header hr := by rw [lookup_rewritten, if_pos hr]

/-- What has been read from a file is read back. -/
theorem Clean.rewritten (h : Clean entry) : entry.rewritten = entry := by
  refine ext_column (clean_rewritten entry).named h.named fun header => ?_
  have hfilled : nonEmpty (entry.column header) = entry.column header := by
    have hne := h.filled header
    unfold nonEmpty
    cases hc : entry.column header with
    | none => rfl
    | some s =>
      rw [hc] at hne
      exact Option.filter_eq_some_iff.mpr ⟨rfl, by simpa using hne⟩
  rw [column_rewritten]
  by_cases hempty : header = ""
  · subst hempty
    rfl
  · rw [if_neg hempty]
    by_cases hfixed : header ∈ fixedHeaders
    · rw [h.named header (.inr hfixed), if_pos hfixed, hfilled]
      rfl
    · have hr : ¬ Reserved header := fun hr => hr.elim hempty hfixed
      rw [if_neg hfixed, Option.or_none, ← column_of_not_reserved hr, hfilled]

/-! ## Rows -/

theorem column_foldl_extra (extra : List String) (get : String → String)
    (entry : LocalizationEntry) (header : String) :
    ((extra.map fun header => (header, get header)).foldl
        (fun entry cell => entry.setColumn cell.1 cell.2) entry).column header =
      if header ∈ extra ∧ header ≠ "" ∧ get header ≠ "" then some (get header)
      else entry.column header := by
  induction extra generalizing entry with
  | nil => rw [if_neg fun h => List.not_mem_nil h.1]; rfl
  | cons name extra ih =>
    rw [List.map_cons, List.foldl_cons, ih, column_setColumn]
    by_cases hmem : header ∈ extra ∧ header ≠ "" ∧ get header ≠ ""
    · rw [if_pos hmem, if_pos ⟨List.mem_cons_of_mem _ hmem.1, hmem.2⟩]
    · rw [if_neg hmem]
      by_cases hname : header = name
      · subst hname
        simp
      · rw [if_neg fun h => hname h.1, if_neg]
        rintro ⟨h, hne⟩
        exact hmem ⟨(List.mem_cons.mp h).resolve_left hname, hne⟩

/-- The row of an entry is read as what is to be read back. -/
theorem ofRecord_toRecord (entry : LocalizationEntry) (extra : List String)
    (hextra : ∀ locale ∈ entry.values.keys, locale ∈ extra) :
    ofRecord (fixedHeaders ++ extra) (toRecord extra entry) = entry.rewritten := by
  refine ext_column (clean_ofRecord _ _).named (clean_rewritten entry).named fun header => ?_
  have hcells : (fixedHeaders ++ extra).zip (toRecord extra entry) =
      [("Key", entry.key.getD ""), ("Source", entry.source.getD ""),
        ("Context", entry.context.getD ""), ("Example", entry.example'.getD "")] ++
      extra.map fun header => (header, (entry.values.lookup header).getD "") := by
    have hzip : ∀ names : List String,
        names.zip (names.map fun header => (entry.values.lookup header).getD "") =
          names.map fun header => (header, (entry.values.lookup header).getD "") := by
      intro names
      induction names with
      | nil => rfl
      | cons name names ih => rw [List.map_cons, List.map_cons, List.zip_cons_cons, ih]
    rw [← hzip extra]
    rfl
  have hfixed : ([("Key", entry.key.getD ""), ("Source", entry.source.getD ""),
        ("Context", entry.context.getD ""), ("Example", entry.example'.getD "")].foldl
        (fun entry cell => entry.setColumn cell.1 cell.2) ({} : LocalizationEntry)).column header =
      if header ∈ fixedHeaders then nonEmpty (entry.column header) else none := by
    simp only [List.foldl_cons, List.foldl_nil, column_setColumn]
    by_cases hmem : header ∈ fixedHeaders
    · rw [if_pos hmem, nonEmpty_eq]
      unfold fixedHeaders at hmem
      simp only [List.mem_cons, List.not_mem_nil, or_false] at hmem
      rcases hmem with rfl | rfl | rfl | rfl <;> simp [column]
    · rw [if_neg hmem]
      unfold fixedHeaders at hmem
      simp only [List.mem_cons, List.not_mem_nil, or_false, not_or] at hmem
      obtain ⟨hkey, hsource, hcontext, hexample⟩ := hmem
      simp [column, hkey, hsource, hcontext, hexample]
  unfold ofRecord
  rw [hcells, List.foldl_append, column_foldl_extra, column_rewritten, hfixed]
  by_cases hempty : header = ""
  · rw [if_pos hempty, if_neg fun h => h.2.1 hempty, if_neg]
    rintro hmem
    rw [hempty] at hmem
    exact absurd hmem (by decide)
  · rw [if_neg hempty, nonEmpty_eq (entry.values.lookup header)]
    by_cases hvalue : (entry.values.lookup header).getD "" = ""
    · rw [if_neg fun h => h.2.2 hvalue, if_neg (not_not.mpr hvalue)]
      rfl
    · have hmem : header ∈ extra := by
        refine hextra header (SortedMap.mem_keys.mpr ?_)
        cases hl : entry.values.lookup header with
        | none => exact absurd (by rw [hl]; rfl) hvalue
        | some v => exact ⟨v, rfl⟩
      rw [if_pos ⟨hmem, hempty, hvalue⟩, if_pos hvalue]
      rfl

/-! ## Tables -/

theorem mem_extraHeaders {locale : String} :
    locale ∈ extraHeaders entries ↔ ∃ entry ∈ entries, locale ∈ entry.values.keys := by
  unfold extraHeaders
  rw [SortedMap.mem_keys_extend, List.map_flatMap]
  simp [SortedMap.mem_keys]

/-- The entries that are read from the rows of some entries. -/
theorem ofRecords_toRecord (entries : List LocalizationEntry) :
    ofRecords (fixedHeaders ++ extraHeaders entries)
        (entries.map (toRecord (extraHeaders entries))) =
      (entries.map rewritten).filter identified := by
  unfold ofRecords
  rw [List.map_map]
  refine congrArg _ (List.map_congr_left fun entry hmem => ?_)
  exact ofRecord_toRecord entry _ fun locale hlocale => mem_extraHeaders.mpr ⟨entry, hmem, hlocale⟩

theorem sourceLe_trans (a b c : LocalizationEntry) (hab : sourceLe a b) (hbc : sourceLe b c) :
    sourceLe a c := by
  unfold sourceLe at *
  cases ha : a.source with
  | none => rfl
  | some s =>
    cases hb : b.source with
    | none => rw [ha, hb] at hab; cases hab
    | some t =>
      cases hc : c.source with
      | none => rw [hb, hc] at hbc; cases hbc
      | some u =>
        rw [ha, hb] at hab
        rw [hb, hc] at hbc
        exact decide_eq_true ((of_decide_eq_true hab).trans (of_decide_eq_true hbc))

theorem sourceLe_total (a b : LocalizationEntry) : sourceLe a b || sourceLe b a := by
  unfold sourceLe
  cases a.source with
  | none => rfl
  | some s =>
    cases b.source with
    | none => rfl
    | some t => simpa using le_total s t

theorem sortBySource_perm (entries : List LocalizationEntry) :
    (sortBySource entries).Perm entries := List.mergeSort_perm _ _

theorem sortBySource_sortBySource (entries : List LocalizationEntry) :
    sortBySource (sortBySource entries) = sortBySource entries :=
  List.mergeSort_of_pairwise (List.pairwise_mergeSort sourceLe_trans sourceLe_total entries)

/-- Entries that have been read from a file are all read back. -/
theorem filter_map_rewritten (hclean : ∀ entry ∈ entries, Clean entry)
    (hidentified : ∀ entry ∈ entries, entry.identified) :
    (entries.map rewritten).filter identified = entries := by
  have hmap : entries.map rewritten = entries.map id :=
    List.map_congr_left fun entry hmem => (hclean entry hmem).rewritten
  rw [hmap, List.map_id]
  exact List.filter_eq_self.mpr hidentified

end LocalizationEntry

/-! ## Files and texts -/

/-- The `csv` crate. The first record is that of the headers. -/
class CsvCrate (File : Type) where
  read : File → Except String (List String × List (List String))
  write : List (List String) → Except String File
  /-- What is written is read, if it does not start with a byte order mark. -/
  read_write : ∀ header headers records, header.toList.head? ≠ some '\uFEFF' →
    (∀ record ∈ records, record.length = (header :: headers).length) →
    ∃ file, write ((header :: headers) :: records) = .ok file ∧
      read file = .ok (header :: headers, records)

/-- The `serde_json` crate. -/
class JsonCrate (Text : Type) where
  parse : Text → Except String Json
  print : Json → Text
  /-- What is printed for a table is parsed. -/
  parse_print : ∀ entries, parse (print (LocalizationEntry.tableToJson entries)) =
    .ok (LocalizationEntry.tableToJson entries)

section Convert

variable {File Text : Type} [CsvCrate File] [JsonCrate Text]

open LocalizationEntry

def convertLocalizationCsv (contents : File) : Except String Text := do
  let (headers, records) ← CsvCrate.read contents
  return JsonCrate.print (tableToJson (ofRecords headers records))

/-- The entries of the text of a table. -/
def localizationEntries (csvContents : Text) : Except String (List LocalizationEntry) :=
  match (JsonCrate.parse csvContents).toOption.bind tableOfJson with
  | some entries => .ok entries
  | none => .error "cannot decode JSON from localization table"

def localizationToCsv (csvContents : Text) : Except String File := do
  let csv ← localizationEntries csvContents
  CsvCrate.write (toRecords (sortBySource csv))

end Convert

end Roxo
