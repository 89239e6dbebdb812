import Roxo.Snapshot.MapDom
import Roxo.SnapshotMiddleware.DirectPaths
import Roxo.Syncback.Snapshot

/-!
# Reading file names back

Syncback makes the name of a file by putting an extension behind the name of the instance; the
default sync rules tell middleware and name from the end of a file name, in order. Behind most
names the extension is told again, but a script whose name ends like another kind of script is
taken for that kind, a bare extension has no stem, and `init` files belong to their directory.
-/

namespace Roxo

open PathBuf WeakDom

/-- A text without anything special in it to a glob. -/
def PlainSuffix (suffix : String) : Prop := ∀ c ∈ suffix.toList, c.isAlpha ∨ c = '.'

/-- What the default rules use of globs: `*` followed by a plain text, or by one of two, matches
the paths whose file names end that way. -/
structure SuffixGlobs [Environment] : Prop where
  suffix : ∀ {suffix : String} {path : PathBuf} {fileName : String}, PlainSuffix suffix →
    path.fileName = some fileName →
      Environment.isMatch ⟨"*" ++ suffix⟩ path = endsWith fileName suffix
  either : ∀ {a b : String} {path : PathBuf} {fileName : String}, PlainSuffix a → PlainSuffix b →
    path.fileName = some fileName →
      Environment.isMatch ⟨"*.\x7b" ++ a ++ "," ++ b ++ "\x7d"⟩ path =
        (endsWith fileName ("." ++ a) || endsWith fileName ("." ++ b))

/-! ## The rules by their suffixes -/

/-- A rule with the suffixes that its glob matches, and those that are excluded. -/
structure SuffixRule where
  rule : SyncRule
  included : List String
  excluded : List String

namespace SuffixRule

def plain (middleware : Middleware) (suffix : String) : SuffixRule :=
  ⟨syncRule ("*" ++ suffix) middleware (some suffix) none, [suffix], []⟩

/-- The name is the stem of the file name. -/
def stem (middleware : Middleware) (suffix : String) : SuffixRule :=
  ⟨syncRule ("*" ++ suffix) middleware none none, [suffix], []⟩

def luau : SuffixRule :=
  ⟨syncRule "*.\x7blua,luau\x7d" .moduleScript none none, [".lua", ".luau"], []⟩

def json : SuffixRule :=
  ⟨syncRule "*.json" .json (some ".json") (some "*.meta.json"), [".json"], [".meta.json"]⟩

def jsonc : SuffixRule :=
  ⟨syncRule "*.jsonc" .json (some ".jsonc") (some "*.meta.jsonc"), [".jsonc"], [".meta.jsonc"]⟩

def yaml : SuffixRule :=
  ⟨syncRule "*.\x7byml,yaml\x7d" .yaml none none, [".yml", ".yaml"], []⟩

/-- The rules for the scripts that are told by more than their extension. -/
def scripts : List SuffixRule :=
  [ plain .serverScript ".server.lua", plain .serverScript ".server.luau",
    plain .clientScript ".client.lua", plain .clientScript ".client.luau",
    plain .pluginScript ".plugin.lua", plain .pluginScript ".plugin.luau" ]

def table : List SuffixRule :=
  scripts ++
  [ luau, plain .project ".project.json", plain .project ".project.jsonc",
    plain .jsonModel ".model.json", plain .jsonModel ".model.jsonc", json, jsonc,
    stem .toml ".toml", stem .csv ".csv", stem .text ".txt", stem .rbxmx ".rbxmx",
    stem .rbxm ".rbxm", yaml ]

theorem table_rules : table.map (·.rule) = defaultSyncRules := by decide +kernel

def accepts (entry : SuffixRule) (fileName : String) : Bool :=
  !(entry.excluded.any (endsWith fileName)) && entry.included.any (endsWith fileName)

end SuffixRule

section Matching

variable [Environment] {path : PathBuf} {fileName : String}

open SuffixRule

omit [Environment] in
theorem plainSuffixes_of_all {suffixes : List String}
    (h : (suffixes.all fun s => s.toList.all fun c => c.isAlpha || c == '.') = true) :
    ∀ s ∈ suffixes, PlainSuffix s := by
  intro s hs c hc
  have hchar := List.all_eq_true.mp (List.all_eq_true.mp h s hs) c hc
  rwa [Bool.or_eq_true, beq_iff_eq] at hchar

omit [Environment] in
theorem plainSuffixes : ∀ s ∈ [".server.lua", ".server.luau", ".client.lua", ".client.luau",
    ".plugin.lua", ".plugin.luau", "lua", "luau", ".project.json", ".project.jsonc",
    ".model.json", ".model.jsonc", ".json", ".meta.json", ".jsonc", ".meta.jsonc", ".toml", ".csv",
    ".txt", ".rbxmx", ".rbxm", "yml", "yaml"], PlainSuffix s :=
  plainSuffixes_of_all (by decide +kernel)

theorem pathMatches_default {rule : SyncRule} (hbase : rule.basePath = ⟨false, []⟩) :
    rule.pathMatches path =
      (!(rule.excludeGlob.any fun pattern => Environment.isMatch pattern path) &&
        Environment.isMatch rule.includeGlob path) := by
  have hstrip : path.stripPrefix ⟨false, []⟩ = some path := rfl
  unfold SyncRule.pathMatches
  rw [hbase, hstrip]
  dsimp only
  cases rule.excludeGlob.any fun pattern => Environment.isMatch pattern path <;> rfl

/-- A default rule matches by the end of the file name. -/
theorem pathMatches_table (hglobs : SuffixGlobs) (hfile : path.fileName = some fileName) :
    ∀ entry ∈ table, entry.rule.pathMatches path = entry.accepts fileName := by
  have hsuffix : ∀ s, PlainSuffix s → Environment.isMatch ⟨"*" ++ s⟩ path = endsWith fileName s :=
    fun s hs => hglobs.suffix hs hfile
  have hplain : ∀ middleware s, PlainSuffix s →
      (plain middleware s).rule.pathMatches path = (plain middleware s).accepts fileName ∧
        (stem middleware s).rule.pathMatches path = (stem middleware s).accepts fileName := by
    intro middleware s hs
    rw [pathMatches_default rfl, pathMatches_default rfl]
    simp [plain, stem, syncRule, accepts, hsuffix s hs]
  have hmem := plainSuffixes
  simp only [List.forall_mem_cons] at hmem
  obtain ⟨hserver, hserveru, hclient, hclientu, hplugin, hpluginu, hlua, hluau, hproject, hprojectc,
    hmodel, hmodelc, hjson, hmeta, hjsonc, hmetac, htoml, hcsv, htxt, hrbxmx, hrbxm, hyml, hyaml,
    -⟩ := hmem
  have hluaRule : luau.rule.pathMatches path = luau.accepts fileName := by
    rw [pathMatches_default rfl]
    have h := hglobs.either hlua hluau hfile
    simpa [luau, syncRule, accepts] using h
  have hyamlRule : yaml.rule.pathMatches path = yaml.accepts fileName := by
    rw [pathMatches_default rfl]
    have h := hglobs.either hyml hyaml hfile
    simpa [yaml, syncRule, accepts] using h
  have hexcluded : ∀ {s t : String}, PlainSuffix s → PlainSuffix t →
      (!(Environment.isMatch ⟨"*" ++ t⟩ path) && Environment.isMatch ⟨"*" ++ s⟩ path) =
      (!(endsWith fileName t) && endsWith fileName s) := by
    intro s t hs ht
    rw [hsuffix _ hs, hsuffix _ ht]
  have hjsonRule : json.rule.pathMatches path = json.accepts fileName := by
    rw [pathMatches_default rfl]
    have h := hexcluded hjson hmeta
    simpa [json, syncRule, accepts] using h
  have hjsoncRule : jsonc.rule.pathMatches path = jsonc.accepts fileName := by
    rw [pathMatches_default rfl]
    have h := hexcluded hjsonc hmetac
    simpa [jsonc, syncRule, accepts] using h
  unfold table scripts
  simp only [List.forall_mem_append, List.forall_mem_cons]
  exact ⟨⟨(hplain _ _ hserver).1, (hplain _ _ hserveru).1, (hplain _ _ hclient).1,
      (hplain _ _ hclientu).1, (hplain _ _ hplugin).1, (hplain _ _ hpluginu).1, nofun⟩,
    hluaRule, (hplain _ _ hproject).1, (hplain _ _ hprojectc).1, (hplain _ _ hmodel).1,
    (hplain _ _ hmodelc).1, hjsonRule, hjsoncRule, (hplain _ _ htoml).2, (hplain _ _ hcsv).2,
    (hplain _ _ htxt).2, (hplain _ _ hrbxmx).2, (hplain _ _ hrbxm).2, hyamlRule, nofun⟩

/-- The rule of a file is the first entry of the table that accepts its name. -/
theorem find_rule (hglobs : SuffixGlobs) (hfile : path.fileName = some fileName) :
    (defaultSyncRules.find? fun rule => rule.pathMatches path) =
      (table.find? fun entry => entry.accepts fileName).map (·.rule) := by
  have hcongr : ∀ entries : List SuffixRule, (∀ entry ∈ entries, entry ∈ table) →
      (entries.find? fun entry => entry.rule.pathMatches path) =
        entries.find? fun entry => entry.accepts fileName := by
    intro entries hmem
    induction entries with
    | nil => rfl
    | cons entry entries ih =>
      rw [List.forall_mem_cons] at hmem
      rw [List.find?_cons, List.find?_cons, pathMatches_table hglobs hfile entry hmem.1,
        ih hmem.2]
  rw [← table_rules, List.find?_map]
  exact congrArg (Option.map (·.rule)) (hcongr table fun _ h => h)

end Matching

/-! ## The rule for a name with an extension -/

theorem endsWith_append (name suffix : String) : endsWith (name ++ suffix) = fun other =>
    other.toList.reverse.isPrefixOf (suffix.toList.reverse ++ name.toList.reverse) := by
  funext other
  unfold endsWith
  rw [String.toList_append, ← List.reverse_append]
  rfl

namespace SuffixRule

/-- The first entry that accepts a file name. -/
def find (fileName : String) : Option SuffixRule :=
  table.find? fun entry => entry.accepts fileName

section Find

variable (name : String)

theorem find_csv : find (name ++ ".csv") = some (stem .csv ".csv") := by
  simp only [find, accepts, endsWith_append]
  rfl

theorem find_text : find (name ++ ".txt") = some (stem .text ".txt") := by
  simp only [find, accepts, endsWith_append]
  rfl

theorem find_rbxm : find (name ++ ".rbxm") = some (stem .rbxm ".rbxm") := by
  simp only [find, accepts, endsWith_append]
  rfl

theorem find_rbxmx : find (name ++ ".rbxmx") = some (stem .rbxmx ".rbxmx") := by
  simp only [find, accepts, endsWith_append]
  rfl

theorem find_model : find (name ++ ".model.json") = some (plain .jsonModel ".model.json") := by
  simp only [find, accepts, endsWith_append]
  rfl

theorem find_server : find (name ++ ".server.luau") = some (plain .serverScript ".server.luau") := by
  simp only [find, accepts, endsWith_append]
  rfl

theorem find_client : find (name ++ ".client.luau") = some (plain .clientScript ".client.luau") := by
  simp only [find, accepts, endsWith_append]
  rfl

/-- The name ends like that of another kind of script. -/
def EndsLikeScript (name : String) : Prop :=
  endsWith name ".server" = true ∨ endsWith name ".client" = true ∨
    endsWith name ".plugin" = true

theorem find_scripts : (scripts.find? fun entry => entry.accepts (name ++ ".luau")) =
    if endsWith name ".server" then some (plain .serverScript ".server.luau")
    else if endsWith name ".client" then some (plain .clientScript ".client.luau")
    else if endsWith name ".plugin" then some (plain .pluginScript ".plugin.luau")
    else none := by
  have hserver : endsWith (name ++ ".luau") ".server.luau" = endsWith name ".server" := by
    rw [endsWith_append]
    rfl
  have hclient : endsWith (name ++ ".luau") ".client.luau" = endsWith name ".client" := by
    rw [endsWith_append]
    rfl
  have hplugin : endsWith (name ++ ".luau") ".plugin.luau" = endsWith name ".plugin" := by
    rw [endsWith_append]
    rfl
  have hlua : ∀ s ∈ [".server.lua", ".client.lua", ".plugin.lua"],
      endsWith (name ++ ".luau") s = false := by
    simp only [endsWith_append, List.forall_mem_cons]
    exact ⟨rfl, rfl, rfl, nofun⟩
  simp only [List.forall_mem_cons] at hlua
  simp only [scripts, plain, accepts, List.find?_cons, List.find?_nil, List.any_cons, List.any_nil,
    Bool.or_false, Bool.not_false, Bool.true_and, hserver, hclient, hplugin, hlua]
  cases endsWith name ".server" <;> cases endsWith name ".client" <;>
    cases endsWith name ".plugin" <;> rfl

theorem find_module (h : ¬ EndsLikeScript name) : find (name ++ ".luau") = some luau := by
  unfold EndsLikeScript at h
  simp only [not_or, Bool.not_eq_true] at h
  obtain ⟨hserver, hclient, hplugin⟩ := h
  have hluau : luau.accepts (name ++ ".luau") = true := by
    simp only [accepts, endsWith_append]
    rfl
  unfold find table
  rw [List.find?_append, find_scripts, hserver, hclient, hplugin, List.find?_cons]
  simp only [hluau]
  rfl

theorem find_endsLikeScript (h : EndsLikeScript name) :
    ∃ entry ∈ scripts, find (name ++ ".luau") = some entry := by
  have hsome : ∃ entry, (scripts.find? fun entry => entry.accepts (name ++ ".luau")) =
      some entry := by
    rw [find_scripts]
    rcases h with h | h | h
    · exact ⟨_, if_pos h⟩
    · rw [h]
      cases endsWith name ".server" <;> exact ⟨_, rfl⟩
    · rw [h]
      cases endsWith name ".server" <;> cases endsWith name ".client" <;> exact ⟨_, rfl⟩
  obtain ⟨entry, hentry⟩ := hsome
  refine ⟨entry, List.mem_of_find?_eq_some hentry, ?_⟩
  unfold find table
  rw [List.find?_append, hentry]
  rfl

theorem scripts_middleware : ∀ entry ∈ scripts, entry.rule.middleware ≠ .moduleScript := by
  decide +kernel

end Find

end SuffixRule

/-- The stem of a name with an extension: the name, but for the bare extension. -/
theorem stemOf_append {name extension : String} (hdot : '.' ∉ extension.toList) :
    stemOf (name ++ "." ++ extension) = if name = "" then "." ++ extension else name := by
  have hchars : (name ++ "." ++ extension).toList.reverse =
      extension.toList.reverse ++ '.' :: name.toList.reverse := by
    rw [String.toList_append, String.toList_append]
    simp
  have hdrop : ((name ++ "." ++ extension).toList.reverse.dropWhile (· ≠ '.')).drop 1 =
      name.toList.reverse := by
    rw [hchars, List.dropWhile_append_of_pos]
    · rfl
    · intro c hc
      have hne : c ≠ '.' := fun h => hdot (List.mem_reverse.mp (h ▸ hc))
      exact decide_eq_true hne
  unfold stemOf
  dsimp only
  rw [hdrop]
  by_cases hname : name = ""
  · rw [if_pos hname, hname]
    rfl
  · have hne : name.toList.reverse ≠ [] := by
      simpa using hname
    rw [if_neg hname, if_neg hne, List.reverse_reverse, String.ofList_toList]

/-! ## What is read back -/

section RoundTrip

variable [Environment] {path dir : PathBuf} {name fileName : String} {middleware : Middleware}

/-- The file is read as an instance of that name by that middleware. -/
def ReadsAs (path : PathBuf) (middleware : Middleware) (name : String) : Prop :=
  ∃ rule, (defaultSyncRules.find? fun rule => rule.pathMatches path) = some rule ∧
    rule.middleware = middleware ∧ rule.fileNameForPath path = .ok name ∧
    ∃ fileName, path.fileName = some fileName ∧ fileName ∉ refusedNames

/-- What a name must be like for the file of the middleware to be read back. -/
def NameReadsBack (middleware : Middleware) (name : String) : Prop :=
  match middleware with
  | .jsonModel => True
  | .serverScript | .clientScript => name ≠ "init"
  | .csv => name ≠ "" ∧ name ≠ "init"
  | .moduleScript => name ≠ "" ∧ name ≠ "init" ∧ ¬ SuffixRule.EndsLikeScript name
  | _ => name ≠ ""

open SuffixRule

theorem readsAs_iff_of_find (hglobs : SuffixGlobs) (hfile : path.fileName = some fileName)
    {entry : SuffixRule} (hfind : SuffixRule.find fileName = some entry) :
    ReadsAs path middleware name ↔ entry.rule.middleware = middleware ∧
      entry.rule.fileNameForPath path = .ok name ∧ fileName ∉ refusedNames := by
  unfold ReadsAs
  rw [find_rule hglobs hfile]
  change (∃ rule, (SuffixRule.find fileName).map (·.rule) = some rule ∧ _) ↔ _
  rw [hfind, hfile]
  simp only [Option.map_some, Option.some.injEq, exists_eq_left']

omit [Environment] in
theorem fileNameForPath_plain {suffix : String} (hfile : path.fileName = some (name ++ suffix)) :
    (plain middleware suffix).rule.fileNameForPath path = .ok name := by
  have hfileName : (plain middleware suffix).rule.fileNameForPath path = (do
      let fileName ← Fallible.context s!"file name of {path.display} is invalid" path.fileName
      .ok ((matchTrailing fileName suffix).getD fileName)) := rfl
  rw [hfileName, hfile]
  change Except.ok ((matchTrailing (name ++ suffix) suffix).getD (name ++ suffix)) = _
  rw [matchTrailing_append]
  rfl

omit [Environment] in
theorem fileNameForPath_stem {rule : SyncRule} {extension : String} (hrule : rule.suffix = none)
    (hdot : '.' ∉ extension.toList) (hfile : path.fileName = some (name ++ "." ++ extension)) :
    rule.fileNameForPath path = .ok name ↔ name ≠ "" := by
  have hstem : rule.fileNameForPath path =
      .ok (if name = "" then "." ++ extension else name) := by
    unfold SyncRule.fileNameForPath fileStem
    rw [hrule, hfile, ← stemOf_append hdot]
    rfl
  rw [hstem]
  split_ifs with hname
  · subst hname
    refine ⟨fun h => absurd (Except.ok.inj h) ?_, fun h => absurd rfl h⟩
    intro h
    have hlength := congrArg (fun s => s.toList.length) h
    simp at hlength
  · exact ⟨fun _ => hname, fun _ => rfl⟩

omit [Environment] in
/-- The refused names with a suffix, by their stems. -/
theorem append_mem_refusedNames {suffix : String} {stems : List String}
    (h : refusedNames.filter (fun refused => endsWith refused suffix) =
      stems.map fun stem => stem ++ suffix) :
    name ++ suffix ∈ refusedNames ↔ name ∈ stems := by
  have hends : endsWith (name ++ suffix) suffix = true := endsWith_iff.mpr ⟨name, rfl⟩
  have hfilter : name ++ suffix ∈ refusedNames ↔
      name ++ suffix ∈ refusedNames.filter fun refused => endsWith refused suffix := by
    rw [List.mem_filter]
    exact ⟨fun hmem => ⟨hmem, hends⟩, And.left⟩
  rw [hfilter, h, List.mem_map]
  constructor
  · rintro ⟨stem, hstem, heq⟩
    have hsame : stem.toList ++ suffix.toList = name.toList ++ suffix.toList := by
      rw [← String.toList_append, ← String.toList_append, heq]
    rwa [← String.toList_inj.mp (List.append_cancel_right hsame)]
  · intro hmem
    exact ⟨name, hmem, rfl⟩

/-- The middlewares of new files, with their extensions. -/
def newExtensions : List (Middleware × String) :=
  [(.csv, "csv"), (.jsonModel, "model.json"), (.serverScript, "server.luau"),
    (.clientScript, "client.luau"), (.moduleScript, "luau"), (.rbxm, "rbxm"), (.rbxmx, "rbxmx"),
    (.text, "txt")]

section Kinds

variable (hglobs : SuffixGlobs)

include hglobs

/-- A rule that strips the suffix gives back every name. -/
theorem readsAs_plain {suffix : String} {stems : List String}
    (hfile : path.fileName = some (name ++ suffix))
    (hfind : SuffixRule.find (name ++ suffix) = some (plain middleware suffix))
    (hrefused : refusedNames.filter (fun refused => endsWith refused suffix) =
      stems.map fun stem => stem ++ suffix) :
    ReadsAs path middleware name ↔ name ∉ stems := by
  rw [readsAs_iff_of_find hglobs hfile hfind, fileNameForPath_plain hfile,
    append_mem_refusedNames hrefused]
  exact ⟨fun h => h.2.2, fun h => ⟨rfl, rfl, h⟩⟩

/-- A rule that takes the stem gives back every name that is not empty. -/
theorem readsAs_stem {extension : String} {entry : SuffixRule} {stems : List String}
    (hdot : '.' ∉ extension.toList) (hfile : path.fileName = some (name ++ "." ++ extension))
    (hfind : SuffixRule.find (name ++ ("." ++ extension)) = some entry)
    (hmiddleware : entry.rule.middleware = middleware) (hsuffix : entry.rule.suffix = none)
    (hrefused : refusedNames.filter (fun refused => endsWith refused ("." ++ extension)) =
      stems.map fun stem => stem ++ ("." ++ extension)) :
    ReadsAs path middleware name ↔ name ≠ "" ∧ name ∉ stems := by
  have hfile' : path.fileName = some (name ++ ("." ++ extension)) := by
    rw [hfile, String.append_assoc]
  rw [readsAs_iff_of_find hglobs hfile' hfind, fileNameForPath_stem hsuffix hdot hfile,
    append_mem_refusedNames hrefused]
  exact ⟨fun h => h.2, fun h => ⟨hmiddleware, h⟩⟩

theorem readsAs_module (hfile : path.fileName = some (name ++ "." ++ "luau")) :
    ReadsAs path .moduleScript name ↔
      name ≠ "" ∧ name ≠ "init" ∧ ¬ EndsLikeScript name := by
  by_cases hends : EndsLikeScript name
  · obtain ⟨entry, hentry, hfind⟩ := find_endsLikeScript name hends
    have hfile' : path.fileName = some (name ++ ".luau") := by
      rw [hfile, String.append_assoc]
      rfl
    rw [readsAs_iff_of_find hglobs hfile' hfind]
    exact ⟨fun h => absurd h.1 (scripts_middleware entry hentry), fun h => absurd hends h.2.2⟩
  · rw [readsAs_stem hglobs (by decide) hfile (find_module name hends)
      (rfl : _ = Middleware.moduleScript) rfl
      (show refusedNames.filter _ = ["init.server", "init.client", "init.plugin", "init"].map _
        by decide +kernel)]
    simp only [List.mem_cons, List.not_mem_nil, or_false, not_or]
    have hscripts : name ≠ "init.server" ∧ name ≠ "init.client" ∧ name ≠ "init.plugin" := by
      refine ⟨?_, ?_, ?_⟩ <;> rintro rfl <;> exact hends (by unfold EndsLikeScript; decide)
    exact ⟨fun h => ⟨h.1, h.2.2.2.2, hends⟩, fun h => ⟨h.1, hscripts.1, hscripts.2.1,
      hscripts.2.2, h.2.1⟩⟩

/-- Which names are read back. -/
theorem readsAs_iff {extension : String} (hext : (middleware, extension) ∈ newExtensions)
    (hfile : path.fileName = some (name ++ "." ++ extension)) :
    ReadsAs path middleware name ↔ NameReadsBack middleware name := by
  have hfile' : path.fileName = some (name ++ ("." ++ extension)) := by
    rw [hfile, String.append_assoc]
  simp only [newExtensions, List.mem_cons, Prod.mk.injEq, List.not_mem_nil, or_false] at hext
  rcases hext with ⟨rfl, rfl⟩ | ⟨rfl, rfl⟩ | ⟨rfl, rfl⟩ | ⟨rfl, rfl⟩ | ⟨rfl, rfl⟩ | ⟨rfl, rfl⟩ |
    ⟨rfl, rfl⟩ | ⟨rfl, rfl⟩
  · rw [readsAs_stem hglobs (by decide) hfile (find_csv name)
      (rfl : _ = Middleware.csv) rfl
      (show refusedNames.filter _ = ["init"].map _ by decide +kernel), List.mem_singleton]
    rfl
  · rw [readsAs_plain hglobs hfile' (find_model name)
      (show refusedNames.filter _ = [].map _ by decide +kernel)]
    simp [NameReadsBack]
  · rw [readsAs_plain hglobs hfile' (find_server name)
      (show refusedNames.filter _ = ["init"].map _ by decide +kernel), List.mem_singleton]
    rfl
  · rw [readsAs_plain hglobs hfile' (find_client name)
      (show refusedNames.filter _ = ["init"].map _ by decide +kernel), List.mem_singleton]
    rfl
  · exact readsAs_module hglobs hfile
  · rw [readsAs_stem hglobs (by decide) hfile (find_rbxm name)
      (rfl : _ = Middleware.rbxm) rfl
      (show refusedNames.filter _ = [].map _ by decide +kernel)]
    simp [NameReadsBack]
  · rw [readsAs_stem hglobs (by decide) hfile (find_rbxmx name)
      (rfl : _ = Middleware.rbxmx) rfl
      (show refusedNames.filter _ = [].map _ by decide +kernel)]
    simp [NameReadsBack]
  · rw [readsAs_stem hglobs (by decide) hfile (find_text name)
      (rfl : _ = Middleware.text) rfl
      (show refusedNames.filter _ = [].map _ by decide +kernel)]
    simp [NameReadsBack]

end Kinds

omit [Environment] in
/-- A new instance that does not become a directory becomes one of these files. -/
theorem newMiddleware_extension {debugModelFormat : Option String} {inst : Instance}
    (h : (newMiddleware debugModelFormat inst).isDir = false) :
    ∃ extension, (newMiddleware debugModelFormat inst, extension) ∈ newExtensions := by
  have hclass : ∀ className, middlewareForClass className ∈
      [Middleware.jsonModel, .dir, .text, .serverScript, .clientScript, .moduleScript, .csv,
        .rbxm] := by
    intro className
    unfold middlewareForClass
    split_ifs <;> decide
  have hmodel : modelMiddleware debugModelFormat ∈ [Middleware.rbxmx, .jsonModel, .rbxm] := by
    unfold modelMiddleware
    split_ifs <;> decide
  have hchosen : ∀ kind ∈ [Middleware.jsonModel, .dir, .text, .serverScript, .clientScript,
      .moduleScript, .csv, .rbxm], ∀ model ∈ [Middleware.rbxmx, .jsonModel, .rbxm], ∀ full : Bool,
      ∀ middleware, middleware = (if full then middlewareWithChildren kind else kind) →
        (if middleware = .rbxm then model else middleware).isDir = false →
          (if middleware = .rbxm then model else middleware) ∈ newExtensions.map Prod.fst := by
    rintro kind hkind model hmodel full _ rfl
    revert full
    revert kind model
    decide
  have hmem : newMiddleware debugModelFormat inst ∈ newExtensions.map Prod.fst := by
    by_cases hchildren : inst.children ≠ []
    · refine hchosen _ (hclass inst.className) _ hmodel true _ ?_ h
      rw [if_pos hchildren, if_pos rfl]
    · refine hchosen _ (hclass inst.className) _ hmodel false _ ?_ h
      rw [if_neg hchildren, if_neg Bool.false_ne_true]
  obtain ⟨⟨_, extension⟩, hpair, rfl⟩ := List.mem_map.mp hmem
  exact ⟨extension, hpair⟩

/-- A new file is read back as the instance that it is written for, if its name allows it. -/
theorem newFile_readsAs_iff {D : Type} [WeakDom D] (hglobs : SuffixGlobs)
    {snapshot : SyncbackSnapshot D} {inst : Instance} (hoverride : snapshot.middleware = none)
    (hinst : snapshot.newInst = .ok inst) (hold : snapshot.oldInst = .ok none)
    (hbest : snapshot.getBestMiddleware = .ok middleware) (hfile : middleware.isDir = false)
    (hvalid : validateFileName inst.name = .ok ()) (dir : PathBuf) :
    ∃ fileName, nameForInst middleware inst none = .ok fileName ∧
      (ReadsAs (dir.joinStr fileName) middleware inst.name ↔
        NameReadsBack middleware inst.name) := by
  obtain rfl := SyncbackSnapshot.getBestMiddleware_new hoverride hinst hold hbest
  obtain ⟨extension, hext⟩ := newMiddleware_extension hfile
  have hmem : ∀ pair ∈ newExtensions, pair ∈ extensions := by decide
  have hname : nameForInst (newMiddleware snapshot.data.debugModelFormat inst) inst none =
      .ok (inst.name ++ "." ++ extension) := by
    unfold nameForInst
    dsimp only
    rw [if_neg (Bool.eq_false_iff.mp hfile), extensionForMiddleware_eq_ok.mpr (hmem _ hext), hvalid]
    rfl
  exact ⟨_, hname, readsAs_iff hglobs hext
    (fileName_joinStr_of_name dir (isName_of_extension (hmem _ hext) hvalid))⟩

end RoundTrip

/-! ## A module -/

/-- The texts between the braces of a glob that ends in them. -/
def globAlternatives (text : List Char) : String × String :=
  (String.ofList (text.takeWhile (· ≠ ',')),
    String.ofList (((text.dropWhile (· ≠ ',')).drop 1).takeWhile (· ≠ '\x7d')))

/-- Matching of the globs that the default rules are made of. -/
def fileNameMatch (glob : Glob) (fileName : String) : Bool :=
  match glob.glob.toList.drop 1 with
  | '.' :: '\x7b' :: text =>
    endsWith fileName ("." ++ (globAlternatives text).1) ||
      endsWith fileName ("." ++ (globAlternatives text).2)
  | text => endsWith fileName (String.ofList text)

/-- An environment that matches globs and decodes nothing. -/
@[reducible] def Environment.ofGlobs : Environment :=
  { Environment.ofProjects [] with
    isMatch := fun glob path => path.fileName.any (fileNameMatch glob) }

theorem not_plain_brace {s : String} (h : PlainSuffix s) : '\x7b' ∉ s.toList := by
  intro hmem
  exact absurd (h _ hmem) (by decide)

theorem takeWhile_of_plain {s : String} {stop : Char} (rest : List Char) (h : PlainSuffix s)
    (hstop : ¬ (stop.isAlpha ∨ stop = '.')) :
    (s.toList ++ stop :: rest).takeWhile (· ≠ stop) = s.toList ∧
      (s.toList ++ stop :: rest).dropWhile (· ≠ stop) = stop :: rest := by
  have hkeep : ∀ c ∈ s.toList, decide (c ≠ stop) = true := by
    intro c hc
    refine decide_eq_true fun heq => hstop ?_
    rw [← heq]
    exact h c hc
  constructor
  · rw [List.takeWhile_append_of_pos hkeep, List.takeWhile_cons_of_neg (by simp), List.append_nil]
  · rw [List.dropWhile_append_of_pos hkeep, List.dropWhile_cons_of_neg (by simp)]

theorem suffixGlobs_ofGlobs : @SuffixGlobs Environment.ofGlobs := by
  let _ := Environment.ofGlobs
  refine ⟨fun {suffix path fileName} hplain hfile => ?_,
    fun {a b path fileName} ha hb hfile => ?_⟩
  · change path.fileName.any (fileNameMatch ⟨"*" ++ suffix⟩) = _
    have htext : (("*" ++ suffix).toList.drop 1) = suffix.toList := by
      rw [String.toList_append]
      rfl
    have hbrace := not_plain_brace hplain
    rw [hfile, Option.any_some]
    unfold fileNameMatch
    dsimp only
    rw [htext]
    split
    · rename_i text heq
      rw [heq] at hbrace
      exact absurd (List.mem_cons_of_mem _ List.mem_cons_self) hbrace
    · rw [String.ofList_toList]
  · change path.fileName.any (fileNameMatch ⟨"*.\x7b" ++ a ++ "," ++ b ++ "\x7d"⟩) = _
    have htext : (("*.\x7b" ++ a ++ "," ++ b ++ "\x7d").toList.drop 1) =
        '.' :: '\x7b' :: (a.toList ++ ',' :: (b.toList ++ '\x7d' :: [])) := by
      rw [String.toList_append, String.toList_append, String.toList_append, String.toList_append]
      simp
    have hfirst := takeWhile_of_plain (b.toList ++ '\x7d' :: []) ha
      (show ¬ (','.isAlpha ∨ ',' = '.') by decide)
    have hsecond := takeWhile_of_plain [] hb
      (show ¬ ('\x7d'.isAlpha ∨ '\x7d' = '.') by decide)
    have halternatives : globAlternatives (a.toList ++ ',' :: (b.toList ++ '\x7d' :: [])) =
        (a, b) := by
      unfold globAlternatives
      rw [hfirst.1, hfirst.2, List.drop_succ_cons, List.drop_zero, hsecond.1,
        String.ofList_toList, String.ofList_toList]
    rw [hfile, Option.any_some]
    unfold fileNameMatch
    dsimp only
    rw [htext]
    change (endsWith fileName ("." ++ (globAlternatives _).1) ||
      endsWith fileName ("." ++ (globAlternatives _).2)) = _
    rw [halternatives]

/-- A new module of the given name. -/
def moduleNamed (name : String) : SyncbackSnapshot MapDom :=
  let dom : MapDom := WeakDom.new ((InstanceBuilder.new "ModuleScript").withName name)
  { data := ⟨⟨dom, ∅, MultiMap.new, MultiMap.new⟩, dom, none, none⟩
    old := none
    new := rootRef dom
    path := ⟨true, ["project"]⟩
    middleware := none }

/-- The instance of the module. -/
def moduleInstance (name : String) : Instance :=
  ((InstanceBuilder.new "ModuleScript").withName name).build (Ref.some 0) Ref.none

theorem moduleNamed_newInst (name : String) :
    (moduleNamed name).newInst = .ok (moduleInstance name) := rfl

theorem moduleNamed_getBestMiddleware (name : String) :
    (moduleNamed name).getBestMiddleware = .ok .moduleScript := rfl

theorem readsAs_lib : letI := Environment.ofGlobs
    ∃ fileName, nameForInst .moduleScript (moduleInstance "lib") none = .ok fileName ∧
      ReadsAs ((⟨true, ["project"]⟩ : PathBuf).joinStr fileName) .moduleScript "lib" := by
  let _ := Environment.ofGlobs
  obtain ⟨fileName, hname, hreads⟩ := newFile_readsAs_iff suffixGlobs_ofGlobs rfl
    (moduleNamed_newInst "lib") rfl (moduleNamed_getBestMiddleware "lib") rfl (by decide)
    ⟨true, ["project"]⟩
  refine ⟨fileName, hname, hreads.mpr ⟨by decide, by decide, ?_⟩⟩
  unfold SuffixRule.EndsLikeScript
  decide

/-- A module named like a file of a server script is read as a server script. -/
theorem not_readsAs_server : letI := Environment.ofGlobs
    ¬ ∀ (snapshot : SyncbackSnapshot MapDom) (inst : Instance) (middleware : Middleware)
      (fileName : String) (dir : PathBuf), snapshot.middleware = none →
        snapshot.newInst = .ok inst → snapshot.oldInst = .ok none →
        snapshot.getBestMiddleware = .ok middleware → middleware.isDir = false →
        validateFileName inst.name = .ok () →
        nameForInst middleware inst none = .ok fileName →
        ReadsAs (dir.joinStr fileName) middleware inst.name := by
  let _ := Environment.ofGlobs
  intro hall
  have hname : nameForInst .moduleScript (moduleInstance "a.server") none =
      .ok "a.server.luau" := by rfl
  have hreads := hall _ _ _ _ ⟨true, ["project"]⟩ rfl (moduleNamed_newInst "a.server") rfl
    (moduleNamed_getBestMiddleware "a.server") rfl (by decide) hname
  have hfile : ((⟨true, ["project"]⟩ : PathBuf).joinStr "a.server.luau").fileName =
      some ("a.server" ++ "." ++ "luau") := by decide
  obtain ⟨-, -, hends⟩ := (readsAs_module suffixGlobs_ofGlobs hfile).mp hreads
  exact hends (Or.inl (by decide))

end Roxo
