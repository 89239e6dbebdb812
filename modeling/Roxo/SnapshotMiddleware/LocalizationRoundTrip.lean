import Roxo.SnapshotMiddleware.Localization

/-!
# Localization tables round trip

A table that comes from a file is written to a file that gives the same entries, sorted by source.
Of other tables nothing is lost exactly if no locale with a translation is named like a fixed column
and every entry that has any text has one for its key or source (`localization_iff`).
-/

namespace Roxo

open LocalizationEntry

/-! ## What a table keeps -/

/-- Every text of the first entry is in the second. -/
structure Keeps (entry entry' : LocalizationEntry) : Prop where
  key : ∀ s, entry.key = some s → s ≠ "" → entry'.key = some s
  source : ∀ s, entry.source = some s → s ≠ "" → entry'.source = some s
  context : ∀ s, entry.context = some s → s ≠ "" → entry'.context = some s
  example' : ∀ s, entry.example' = some s → s ≠ "" → entry'.example' = some s
  values : ∀ locale s, entry.values.lookup locale = some s → s ≠ "" →
    entry'.values.lookup locale = some s

/-- The entry has no text. -/
def Blank (entry : LocalizationEntry) : Prop := Keeps entry {}

/-- Every entry with a text has an entry of its own that keeps it, and there are no others. -/
inductive KeptIn : List LocalizationEntry → List LocalizationEntry → Prop
  | nil : KeptIn [] []
  | keep {entry entry' : LocalizationEntry} {l l' : List LocalizationEntry} :
      Keeps entry entry' → KeptIn l l' → KeptIn (entry :: l) (entry' :: l')
  | blank {entry : LocalizationEntry} {l l' : List LocalizationEntry} :
      Blank entry → KeptIn l l' → KeptIn (entry :: l) l'

/-- No text of any entry is lost. -/
def LosesNothing (entries entries' : List LocalizationEntry) : Prop :=
  ∃ kept, kept.Perm entries ∧ KeptIn kept entries'

/-- A locale with a text is not read as a fixed column, and an entry with a text is identified. -/
structure Writable (entry : LocalizationEntry) : Prop where
  named : ∀ locale, Reserved locale → nonEmpty (entry.values.lookup locale) = none
  identified : nonEmpty entry.key ≠ none ∨ nonEmpty entry.source ≠ none ∨ Blank entry

variable {entry entry' : LocalizationEntry} {entries entries' : List LocalizationEntry}

theorem nonEmpty_eq_some_iff {cell : Option String} {s : String} :
    nonEmpty cell = some s ↔ cell = some s ∧ s ≠ "" := by
  unfold nonEmpty
  rw [Option.filter_eq_some_iff]
  simp

theorem Blank.nonEmpty_key (h : Blank entry) : nonEmpty entry.key = none := by
  cases hn : nonEmpty entry.key with
  | none => rfl
  | some s => cases h.key s (nonEmpty_eq_some_iff.mp hn).1 (nonEmpty_eq_some_iff.mp hn).2

theorem Blank.nonEmpty_source (h : Blank entry) : nonEmpty entry.source = none := by
  cases hn : nonEmpty entry.source with
  | none => rfl
  | some s => cases h.source s (nonEmpty_eq_some_iff.mp hn).1 (nonEmpty_eq_some_iff.mp hn).2

theorem Keeps.named (h : Keeps entry entry')
    (h' : ∀ locale, Reserved locale → entry'.values.lookup locale = none) (locale : String)
    (hr : Reserved locale) : nonEmpty (entry.values.lookup locale) = none := by
  cases hn : nonEmpty (entry.values.lookup locale) with
  | none => rfl
  | some s =>
    have hs := h.values locale s (nonEmpty_eq_some_iff.mp hn).1 (nonEmpty_eq_some_iff.mp hn).2
    rw [h' locale hr] at hs
    cases hs

/-- Without such locales the columns are read back as they are. -/
theorem keeps_rewritten
    (h : ∀ locale, Reserved locale → nonEmpty (entry.values.lookup locale) = none) :
    Keeps entry entry.rewritten := by
  have hfixed : ∀ header ∈ fixedHeaders, ∀ cell : Option String, ∀ s, cell = some s → s ≠ "" →
      (nonEmpty (entry.values.lookup header)).or (nonEmpty cell) = some s := by
    intro header hmem cell s hs hne
    rw [h header (.inr hmem), Option.none_or, nonEmpty_eq_some_iff]
    exact ⟨hs, hne⟩
  refine
    { key := hfixed "Key" (by decide) _, source := hfixed "Source" (by decide) _
      context := hfixed "Context" (by decide) _, example' := hfixed "Example" (by decide) _
      values := fun locale s hs hne => ?_ }
  have hn : nonEmpty (entry.values.lookup locale) = some s := nonEmpty_eq_some_iff.mpr ⟨hs, hne⟩
  have hr : ¬ Reserved locale := by
    intro hr
    rw [h locale hr] at hn
    cases hn
  rw [lookup_rewritten, if_neg hr, hn]

theorem identified_rewritten
    (h : ∀ locale, Reserved locale → nonEmpty (entry.values.lookup locale) = none) :
    entry.rewritten.identified = true ↔
      nonEmpty entry.key ≠ none ∨ nonEmpty entry.source ≠ none := by
  unfold identified rewritten
  rw [h "Key" (.inr (by decide)), h "Source" (.inr (by decide)), Option.none_or, Option.none_or,
    Bool.or_eq_true, Option.isSome_iff_ne_none, Option.isSome_iff_ne_none]

theorem KeptIn.mem (h : KeptIn entries entries') :
    ∀ entry ∈ entries, Blank entry ∨ ∃ entry' ∈ entries', Keeps entry entry' := by
  induction h with
  | nil => exact fun _ h => absurd h List.not_mem_nil
  | keep hkeeps _ ih =>
    intro entry hmem
    rcases List.mem_cons.mp hmem with rfl | hmem
    · exact .inr ⟨_, List.mem_cons_self, hkeeps⟩
    · exact (ih entry hmem).imp_right fun ⟨entry', hmem', h⟩ =>
        ⟨entry', List.mem_cons_of_mem _ hmem', h⟩
  | blank hblank _ ih =>
    intro entry hmem
    rcases List.mem_cons.mp hmem with rfl | hmem
    · exact .inl hblank
    · exact ih entry hmem

/-- A test that passes more counts more. -/
theorem countP_lt {p q : LocalizationEntry → Bool} (hpq : ∀ entry ∈ entries, p entry → q entry)
    (hmem : entry ∈ entries) (hp : ¬ p entry) (hq : q entry) :
    entries.countP p < entries.countP q := by
  induction entries with
  | nil => exact absurd hmem List.not_mem_nil
  | cons a entries ih =>
    rw [List.countP_cons, List.countP_cons]
    have hrest : ∀ entry ∈ entries, p entry → q entry :=
      fun entry hmem => hpq entry (List.mem_cons_of_mem _ hmem)
    rcases List.mem_cons.mp hmem with rfl | hmem
    · rw [if_neg hp, if_pos hq]
      exact Nat.lt_succ_of_le (List.countP_mono_left hrest)
    · have hlt := ih hrest hmem
      have ha := hpq a List.mem_cons_self
      split <;> split <;> grind

open Classical in
/-- There are as many entries as have a text. -/
theorem KeptIn.countP_le (h : KeptIn entries entries') :
    (entries.countP fun entry => ¬ Blank entry) ≤ entries'.length := by
  induction h with
  | nil => exact Nat.le_refl 0
  | keep _ _ ih =>
    rw [List.countP_cons, List.length_cons]
    split <;> omega
  | blank hblank _ ih =>
    rw [List.countP_cons, if_neg (by simpa using hblank)]
    exact ih

theorem keptIn_rewritten (h : ∀ entry ∈ entries, Writable entry) :
    KeptIn entries ((entries.map rewritten).filter identified) := by
  induction entries with
  | nil => exact .nil
  | cons entry entries ih =>
    have hentry := h entry List.mem_cons_self
    have hrest := ih fun entry hmem => h entry (List.mem_cons_of_mem _ hmem)
    rw [List.map_cons]
    by_cases hid : entry.rewritten.identified = true
    · rw [List.filter_cons_of_pos hid]
      exact .keep (keeps_rewritten hentry.named) hrest
    · rw [List.filter_cons_of_neg hid]
      have hnot := mt (identified_rewritten hentry.named).mpr hid
      exact .blank (hentry.identified.elim (fun hk => absurd (.inl hk) hnot)
        fun h => h.resolve_left fun hs => hnot (.inr hs)) hrest

/-- **Nothing is lost exactly if every entry can be written.** -/
theorem losesNothing_iff (entries : List LocalizationEntry) :
    LosesNothing entries (((sortBySource entries).map rewritten).filter identified) ↔
      ∀ entry ∈ entries, Writable entry := by
  classical
  constructor
  · rintro ⟨kept, hperm, hkept⟩
    have hnamed : ∀ entry ∈ entries, ∀ locale, Reserved locale →
        nonEmpty (entry.values.lookup locale) = none := by
      intro entry hmem
      rcases hkept.mem entry (hperm.mem_iff.mpr hmem) with hblank | ⟨entry', hmem', hkeeps⟩
      · exact Keeps.named hblank fun _ _ => rfl
      · obtain ⟨original, -, rfl⟩ := List.mem_map.mp (List.mem_of_mem_filter hmem')
        exact hkeeps.named (clean_rewritten original).named
    refine fun entry hmem => ⟨hnamed entry hmem, ?_⟩
    by_contra hcon
    rw [not_or, not_or] at hcon
    obtain ⟨hkey, hsource, hblank⟩ := hcon
    -- the entry is dropped, so there are too few
    have hfew : (entries.countP fun entry => entry.rewritten.identified) <
        entries.countP fun entry => ¬ Blank entry := by
      refine countP_lt (fun entry hmem hid => ?_) hmem ?_ (decide_eq_true hblank)
      · refine decide_eq_true fun hb => ?_
        rcases (identified_rewritten (hnamed entry hmem)).mp hid with hk | hs
        · exact hk hb.nonEmpty_key
        · exact hs hb.nonEmpty_source
      · intro hid
        exact ((identified_rewritten (hnamed entry hmem)).mp hid).elim hkey hsource
    have hlength : (((sortBySource entries).map rewritten).filter identified).length =
        entries.countP fun entry => entry.rewritten.identified := by
      rw [← List.countP_eq_length_filter, List.countP_map]
      exact (sortBySource_perm entries).countP_eq _
    have hle := hkept.countP_le
    rw [hlength, hperm.countP_eq] at hle
    exact absurd hle (not_le.mpr hfew)
  · intro h
    exact ⟨sortBySource entries, sortBySource_perm entries,
      keptIn_rewritten fun entry hmem => h entry ((sortBySource_perm entries).mem_iff.mp hmem)⟩

/-! ## Files and texts -/

section Crates

variable {File Text : Type} [CsvCrate File] [JsonCrate Text]

variable (Text) in
theorem localizationEntries_print (entries : List LocalizationEntry) :
    localizationEntries (JsonCrate.print (tableToJson entries) : Text) = .ok entries := by
  simp [localizationEntries, JsonCrate.parse_print, Except.toOption, tableOfJson_tableToJson]

theorem localizationToCsv_eq {text : Text} (h : localizationEntries text = .ok entries) :
    (localizationToCsv text : Except String File) =
      CsvCrate.write (toRecords (sortBySource entries)) := by
  unfold localizationToCsv
  rw [h]
  rfl

variable (File) in
/-- A text whose entries can be read is written to a file that gives the rewritten entries. -/
theorem exists_localizationToCsv {text : Text} {entries : List LocalizationEntry}
    (h : localizationEntries text = .ok entries) : ∃ file : File,
      localizationToCsv text = .ok file ∧ convertLocalizationCsv file = .ok (JsonCrate.print
        (tableToJson (((sortBySource entries).map rewritten).filter identified)) : Text) := by
  have hcrate := @CsvCrate.read_write File _
  obtain ⟨file, hwrite, hread⟩ := hcrate "Key"
    (["Source", "Context", "Example"] ++ extraHeaders (sortBySource entries))
    ((sortBySource entries).map (toRecord (extraHeaders (sortBySource entries))))
    (by decide) (by
      intro record hmem
      obtain ⟨entry, -, rfl⟩ := List.mem_map.mp hmem
      simp [toRecord])
  refine ⟨file, ?_, ?_⟩
  · rw [localizationToCsv_eq h]
    exact hwrite
  · unfold convertLocalizationCsv
    rw [hread, ← ofRecords_toRecord]
    rfl

/-- What is read from a file, as far as it is read. -/
theorem convertLocalizationCsv_eq_ok {contents : File} {text : Text}
    (h : convertLocalizationCsv contents = .ok text) : ∃ entries : List LocalizationEntry,
      text = JsonCrate.print (tableToJson entries) ∧
      (∀ entry ∈ entries, Clean entry) ∧ ∀ entry ∈ entries, entry.identified := by
  unfold convertLocalizationCsv at h
  cases hread : CsvCrate.read contents with
  | error err => rw [hread] at h; cases h
  | ok table =>
    obtain ⟨headers, records⟩ := table
    rw [hread] at h
    cases h
    refine ⟨ofRecords headers records, rfl, fun entry hmem => ?_, fun entry hmem => ?_⟩
    · obtain ⟨record, -, rfl⟩ := List.mem_map.mp (List.mem_of_mem_filter hmem)
      exact clean_ofRecord headers record
    · exact (List.mem_filter.mp hmem).2

variable (File Text) in
/-- A table from a file is written to a file from which the same entries are read, sorted. -/
theorem exists_localizationToCsv_print (hclean : ∀ entry ∈ entries, Clean entry)
    (hidentified : ∀ entry ∈ entries, entry.identified) : ∃ file : File,
      localizationToCsv (JsonCrate.print (tableToJson entries) : Text) = .ok file ∧
      convertLocalizationCsv file =
        .ok (JsonCrate.print (tableToJson (sortBySource entries)) : Text) := by
  obtain ⟨file, hto, hfrom⟩ := exists_localizationToCsv File
    (localizationEntries_print Text entries)
  have hmem : ∀ entry, entry ∈ sortBySource entries ↔ entry ∈ entries :=
    fun entry => (sortBySource_perm entries).mem_iff
  rw [filter_map_rewritten (fun entry h => hclean entry ((hmem entry).mp h))
    fun entry h => hidentified entry ((hmem entry).mp h)] at hfrom
  exact ⟨file, hto, hfrom⟩

end Crates

variable (File Text : Type) [CsvCrate File] [JsonCrate Text]

/-- What is read from a file is written to a file that gives the same entries sorted by source. -/
def SortedRoundTrip : Prop :=
  ∀ (contents : File) (text : Text), convertLocalizationCsv contents = .ok text →
    ∃ (entries : List LocalizationEntry) (file : File) (text' : Text),
      localizationEntries text = .ok entries ∧ localizationToCsv text = .ok file ∧
      convertLocalizationCsv file = .ok text' ∧
      localizationEntries text' = .ok (sortBySource entries)

/-- Reading a file that was written and writing it again does the same twice as once. -/
def Idempotent : Prop :=
  ∀ (text : Text) (file : File), localizationToCsv text = .ok file →
    ∃ (text₁ : Text) (file₁ : File) (text₂ : Text),
      convertLocalizationCsv file = .ok text₁ ∧ localizationToCsv text₁ = .ok file₁ ∧
      convertLocalizationCsv file₁ = .ok text₂ ∧ localizationToCsv text₂ = .ok file₁

variable {Text}

/-- The entries of a text are written to a file from which no text of theirs is missing. -/
def Lossless (text : Text) (entries : List LocalizationEntry) : Prop :=
  ∃ (file : File) (text' : Text) (entries' : List LocalizationEntry),
    localizationToCsv text = .ok file ∧ convertLocalizationCsv file = .ok text' ∧
    localizationEntries text' = .ok entries' ∧ LosesNothing entries entries'

theorem lossless_iff {text : Text} (h : localizationEntries text = .ok entries) :
    Lossless File text entries ↔ ∀ entry ∈ entries, Writable entry := by
  obtain ⟨file, hto, hfrom⟩ := exists_localizationToCsv File h
  rw [← losesNothing_iff entries]
  constructor
  · rintro ⟨file', text', entries', hto', hfrom', hentries, hloses⟩
    rw [hto] at hto'
    cases hto'
    rw [hfrom] at hfrom'
    cases hfrom'
    rw [localizationEntries_print] at hentries
    cases hentries
    exact hloses
  · exact fun hloses => ⟨file, _, _, hto, hfrom, localizationEntries_print _ _, hloses⟩

/-- **Localization tables round trip**, where they come from files; of other tables nothing is lost
exactly if every entry can be written. -/
theorem localization_iff : SortedRoundTrip File Text ∧ Idempotent File Text ∧
    ∀ (text : Text) (entries : List LocalizationEntry), localizationEntries text = .ok entries →
      (Lossless File text entries ↔ ∀ entry ∈ entries, Writable entry) := by
  refine ⟨fun contents text h => ?_, fun text file h => ?_, fun text entries => lossless_iff File⟩
  · obtain ⟨entries, rfl, hclean, hidentified⟩ := convertLocalizationCsv_eq_ok h
    obtain ⟨file, hto, hfrom⟩ := exists_localizationToCsv_print File Text hclean hidentified
    exact ⟨entries, file, _, localizationEntries_print _ _, hto, hfrom, localizationEntries_print _ _⟩
  · cases hentries : localizationEntries text with
    | error err =>
      unfold localizationToCsv at h
      rw [hentries] at h
      cases h
    | ok entries =>
      obtain ⟨file', hto, hfrom⟩ := exists_localizationToCsv File hentries
      rw [h] at hto
      cases hto
      obtain ⟨entries₁, hprint, hclean, hidentified⟩ := convertLocalizationCsv_eq_ok hfrom
      obtain ⟨file₁, hto₁, hfrom₁⟩ := exists_localizationToCsv_print File Text hclean hidentified
      refine ⟨_, file₁, _, hfrom, hprint ▸ hto₁, hfrom₁, ?_⟩
      rw [← hto₁, localizationToCsv_eq (localizationEntries_print _ _),
        localizationToCsv_eq (localizationEntries_print _ _), sortBySource_sortBySource]

/-! ### A locale named like a column -/

/-- A file as its records. -/
@[reducible] def recordFile : CsvCrate (List (List String)) where
  read
    | [] => .ok ([], [])
    | headers :: records => .ok (headers, records)
  write records := .ok records
  read_write header headers records _ _ := ⟨(header :: headers) :: records, rfl, rfl⟩

/-- A text as its value. -/
@[reducible] def valueText : JsonCrate Json where
  parse := .ok
  print := id
  parse_print _ := rfl

def greeting : LocalizationEntry where
  key := some "greeting"
  source := some "Hi"
  values := (∅ : SortedMap String String).insert "Example" "Hallo"

/-- The locale is read as the example of the entry. -/
theorem not_lossless_greeting : letI := recordFile; letI := valueText
    ¬ (SortedRoundTrip (List (List String)) Json ∧ Idempotent (List (List String)) Json ∧
      ∀ (text : Json) (entries : List LocalizationEntry), localizationEntries text = .ok entries →
        (∀ entry ∈ entries, entry.identified) → Lossless (List (List String)) text entries) := by
  let _ := recordFile
  let _ := valueText
  rintro ⟨-, -, h⟩
  have hentries : localizationEntries (tableToJson [greeting]) = .ok [greeting] :=
    localizationEntries_print Json [greeting]
  have hwritable := (lossless_iff _ hentries).mp (h _ _ hentries (by decide)) greeting
    List.mem_cons_self
  exact absurd (hwritable.named "Example" (.inr (by decide))) (by decide)

end Roxo
