import ReleaseGate.Proofs.Config.Accepted
import ReleaseGate.Proofs.Text.Utf8
import ReleaseGate.Proofs.Toml.Tables

/-!
# Overridden defaults

A settings document that names some of the settings comes to the defaults with these settings
replaced, in whatever order and spelling they stand. One name too many, and it is no configuration.
-/
namespace ReleaseGate

open Files Toml

/-- The settings with those replaced that are named. -/
def Sources.override (named : List (String × String)) (s : Sources) : Sources where
  srcRoot := (named.lookup "src_root").getD s.srcRoot
  sourceExtension := (named.lookup "source_extension").getD s.sourceExtension
  providerMetadata := (named.lookup "provider_metadata").getD s.providerMetadata
  extensionCatalog := (named.lookup "extension_catalog").getD s.extensionCatalog
  contract := (named.lookup "contract").getD s.contract
  officialTier := (named.lookup "official_tier").getD s.officialTier
  communityTier := (named.lookup "community_tier").getD s.communityTier

namespace Config

def sourceNames : List String :=
  ["src_root", "source_extension", "provider_metadata", "extension_catalog", "contract",
    "official_tier", "community_tier"]

/-- The tables with the names of their settings. -/
def schema : List (String × List String) :=
  [("suites", ["expected"]), ("taxonomy", sourceNames)]

/-- One of the tables, with the settings that it names in their order. -/
inductive Part where
  | suites (expected : Option (List String))
  | taxonomy (named : List (String × String)) (nodup : (named.map (·.1)).Nodup)
    (known : ∀ e ∈ named, e.1 ∈ sourceNames)

namespace Part

def name : Part → String
  | suites _ => "suites"
  | taxonomy .. => "taxonomy"

def expected? : Part → Option (List String)
  | suites expected => expected
  | taxonomy .. => none

def named : Part → List (String × String)
  | suites _ => []
  | taxonomy named .. => named

def settings : Part → Table
  | suites expected => expected.toList.map fun names => ("expected", .list false (names.map .text))
  | taxonomy named .. => named.map fun e => (e.1, .text e.2)

/-- The part is an entry of a table, in whichever way that came about. -/
def IsEntry (part : Part) (e : String × Value) : Prop :=
  ∃ origin, e = (part.name, .table origin part.settings)

theorem nodup_settings (part : Part) : (part.settings.map (·.1)).Nodup := by
  cases part with
  | suites expected => cases expected <;> simp [settings]
  | taxonomy named nodup =>
    rw [settings, List.map_map]
    exact nodup

theorem exists_spellsValue (part : Part) {e : String × Value} (he : e ∈ part.settings)
    (rest : List Char) : ∃ s, SpellsValue e.2 s rest := by
  cases part with
  | suites expected =>
    obtain ⟨names, -, rfl⟩ := List.mem_map.1 he
    obtain ⟨s, hs⟩ := exists_spellsItems names rest
    exact ⟨_, .list hs⟩
  | taxonomy named =>
    obtain ⟨setting, -, rfl⟩ := List.mem_map.1 he
    obtain ⟨s, hs⟩ := exists_spellsText setting.2 rest
    exact ⟨_, .text hs⟩

end Part

/-- A document that names settings of either table, of both or of none. -/
structure Document where
  parts : List Part
  nodup : (parts.map Part.name).Nodup

namespace Document

def tables (d : Document) : List (String × Table) :=
  d.parts.map fun part => (part.name, part.settings)

/-- The defaults with the named settings replaced. -/
def overridden (d : Document) : Config where
  expected := (d.parts.findSome? Part.expected?).getD ({} : Config).expected
  sources := ({} : Sources).override (d.parts.flatMap Part.named)

/-- The text is read as the tables of the document. -/
def IsReadFrom (d : Document) (text : List Char) : Prop :=
  ∃ t, Toml.read text = some t ∧ List.Forall₂ Part.IsEntry d.parts t

/-- The text spells the document line by line, and goes on with the rest. -/
def Spells (d : Document) (text rest : List Char) : Prop :=
  SpellsLines (tableStatements d.tables) text rest

theorem nodup_tables (d : Document) : (d.tables.map (·.1)).Nodup := by
  have h := d.nodup
  simpa [tables, Function.comp_def] using h

theorem nodup_settings (d : Document) {e : String × Table} (he : e ∈ d.tables) :
    (e.2.map (·.1)).Nodup := by
  obtain ⟨part, -, rfl⟩ := List.mem_map.1 he
  exact part.nodup_settings

theorem isReadFrom_of_spells {d : Document} {text : List Char} (h : d.Spells text []) :
    d.IsReadFrom text := by
  refine ⟨headerTables d.tables, ?_, ?_⟩
  · rw [read_of_spells h, Table.ofStatements,
      foldlM_step_eq d.nodup_tables fun e he => d.nodup_settings he]
    rfl
  · rw [headerTables, tables, List.map_map, List.forall₂_map_right_iff, List.forall₂_same]
    exact fun part _ => ⟨.header, rfl⟩

theorem exists_spells (d : Document) (rest : List Char) : ∃ text, d.Spells text rest := by
  apply exists_spellsLines
  intro st hst
  obtain ⟨e, he, hst⟩ := List.mem_flatMap.1 hst
  obtain ⟨part, -, rfl⟩ := List.mem_map.1 he
  rcases List.mem_cons.1 hst with rfl | hst
  · exact exists_spellsLine_table part.name
  · obtain ⟨setting, hsetting, rfl⟩ := List.mem_map.1 hst
    exact exists_spellsLine_setting setting.1 (part.exists_spellsValue hsetting)

end Document

section Read

/-- Settings that are named one after the other, none of them twice. -/
theorem override_append {first second : List (String × String)} (s : Sources)
    (h : ∀ n, first.lookup n = none ∨ second.lookup n = none) :
    s.override (first ++ second) = (s.override first).override second := by
  have hname : ∀ n x, ((first ++ second).lookup n).getD x =
      (second.lookup n).getD ((first.lookup n).getD x) := by
    intro n x
    rw [List.lookup_append]
    rcases h n with hn | hn
    · rw [hn, Option.none_or, Option.getD_none]
    · rw [hn, Option.or_none, Option.getD_none]
  simp only [Sources.override, hname]

theorem set_source {n : String} (hn : n ∈ sourceNames) (v : String) (s : Sources) :
    (sourceSettings.find? (·.name == n)).bind (·.set (.text v) s) = some (s.override [(n, v)]) := by
  simp only [sourceNames, List.mem_cons, List.not_mem_nil, or_false] at hn
  rcases hn with rfl | rfl | rfl | rfl | rfl | rfl | rfl <;> rfl

theorem readRecord_cons {α : Type} (settings : List (Setting α)) (a : α) (origin : Origin)
    (e : String × Value) (t : Table) :
    readRecord settings a (.table origin (e :: t)) =
      ((settings.find? (·.name == e.1)).bind (·.set e.2 a)).bind fun a =>
        readRecord settings a (.table origin t) :=
  rfl

theorem readRecord_sources {named : List (String × String)} (hnodup : (named.map (·.1)).Nodup)
    (hknown : ∀ e ∈ named, e.1 ∈ sourceNames) (origin : Origin) (s : Sources) :
    readRecord sourceSettings s (.table origin (named.map fun e => (e.1, .text e.2))) =
      some (s.override named) := by
  induction named generalizing s with
  | nil => rfl
  | cons e named ih =>
    rw [List.forall_mem_cons] at hknown
    rw [List.map_cons, List.nodup_cons, ← NameMap.lookup_eq_none_iff] at hnodup
    rw [List.map_cons, readRecord_cons, set_source hknown.1, Option.bind_some,
      ih hnodup.2 hknown.2, ← override_append s, List.singleton_append]
    intro n
    by_cases hn : n = e.1
    · exact .inr (hn ▸ hnodup.1)
    · exact .inl (by rw [Entries.lookup_cons, if_neg hn, List.lookup_nil])

theorem asTexts?_texts (growing : Bool) (names : List String) :
    asTexts? (.list growing (names.map .text)) = some names := by
  induction names with
  | nil => rfl
  | cons name names ih =>
    rw [asTexts?] at ih
    simp [asTexts?, asText?, ih]

theorem readRecord_part (part : Part) (origin : Origin) (c : Config) :
    (sections.find? (·.name == part.name)).bind (·.set (.table origin part.settings) c) =
      some { expected := part.expected?.getD c.expected
             sources := c.sources.override part.named } := by
  cases part with
  | suites expected =>
    cases expected with
    | none => rfl
    | some names =>
      have hset : (suiteSettings.find? (·.name == "expected")).bind
          (·.set (.list false (names.map .text)) c) = some { c with expected := names } := by
        change (asTexts? (.list false (names.map .text))).map _ = _
        rw [asTexts?_texts]
        rfl
      change readRecord suiteSettings c (.table origin [("expected", _)]) = _
      rw [readRecord_cons, hset]
      rfl
  | taxonomy named nodup known =>
    change (readRecord sourceSettings c.sources
      (.table origin (named.map fun e => (e.1, .text e.2)))).map _ = _
    rw [readRecord_sources nodup known]
    rfl

/-- No setting is named by two tables. -/
theorem named_once {part : Part} {parts : List Part} (h : part.name ∉ parts.map Part.name) :
    (part.expected? = none ∨ parts.findSome? Part.expected? = none) ∧
      (part.named = [] ∨ parts.flatMap Part.named = []) := by
  cases part with
  | suites expected =>
    refine ⟨.inr (List.findSome?_eq_none_iff.2 fun other hother => ?_), .inl rfl⟩
    cases other with
    | suites => exact absurd (List.mem_map_of_mem hother) h
    | taxonomy => rfl
  | taxonomy named nodup known =>
    refine ⟨.inl rfl, .inr (List.flatMap_eq_nil_iff.2 fun other hother => ?_)⟩
    cases other with
    | suites => rfl
    | taxonomy => exact absurd (List.mem_map_of_mem hother) h

/-- The tables of a document are read into the defaults one by one. -/
theorem readRecord_parts {parts : List Part} {t : Table} {origin : Origin}
    (hnodup : (parts.map Part.name).Nodup)
    (ht : List.Forall₂ Part.IsEntry parts t) (c : Config) :
    readRecord sections c (.table origin t) =
      some { expected := (parts.findSome? Part.expected?).getD c.expected
             sources := c.sources.override (parts.flatMap Part.named) } := by
  induction ht generalizing c with
  | nil => rfl
  | @cons part e parts t he _ ih =>
    obtain ⟨origin, rfl⟩ := he
    rw [List.map_cons, List.nodup_cons] at hnodup
    obtain ⟨hexpected, hnamed⟩ := named_once hnodup.1
    rw [readRecord_cons, readRecord_part, Option.bind_some, ih hnodup.2, List.findSome?_cons,
      List.flatMap_cons, override_append c.sources]
    · rcases hexpected with he | he
      · rw [he]
        rfl
      · rw [he]
        cases part.expected? <;> rfl
    · intro n
      rcases hnamed with he | he
      · exact .inl (by rw [he, List.lookup_nil])
      · exact .inr (by rw [he, List.lookup_nil])

end Read

/-- A path that leads to nothing in the schema, from the top. -/
inductive Foreign : List String → Prop
  | top {table : String} {path : List String} (h : table ∉ schema.map (·.1)) :
    Foreign (table :: path)
  | inside {table name : String} {names path : List String} (h : (table, names) ∈ schema)
    (hname : name ∉ names) : Foreign (table :: name :: path)

theorem Foreign.take {path : List String} (h : Foreign path) : Foreign (path.take 2) := by
  cases h with
  | top h => exact .top h
  | inside h hname => exact .inside h hname

section Refused

variable {α : Type} {settings : List (Setting α)} (origin : Origin) {t : Table}

theorem readRecord_eq_none_of_mem {e : String × Value} (he : e ∈ t)
    (h : ∀ a, (settings.find? (·.name == e.1)).bind (·.set e.2 a) = none) (blank : α) :
    readRecord settings blank (.table origin t) = none := by
  induction t generalizing blank with
  | nil => cases he
  | cons first t ih =>
    rw [readRecord_cons]
    rcases List.mem_cons.1 he with rfl | he
    · rw [h, Option.bind_none]
    · cases (settings.find? (·.name == first.1)).bind (·.set first.2 blank) with
      | none => rfl
      | some a => exact ih he a

theorem readRecord_eq_none_of_holds {name : String} {path : List String}
    (h : Table.Holds (name :: path) t) (hname : name ∉ settings.map Setting.name) (blank : α) :
    readRecord settings blank (.table origin t) = none := by
  obtain ⟨v, hv⟩ := Option.isSome_iff_exists.1 h.isSome
  refine readRecord_eq_none_of_mem origin (NameMap.mem_of_lookup hv) (fun a => ?_) blank
  have hnone : settings.find? (·.name == name) = none := by
    rw [List.find?_eq_none]
    intro setting hsetting he
    exact hname (List.mem_map.2 ⟨setting, hsetting, by simpa using he⟩)
  rw [hnone, Option.bind_none]

/-- Nothing outside of the schema is read. -/
theorem readRecord_sections_eq_none {path : List String} (h : Table.Holds path t)
    (hforeign : Foreign path) (c : Config) : readRecord sections c (.table origin t) = none := by
  cases hforeign with
  | top htable =>
    have hsections : _ ∉ sections.map Setting.name := htable
    exact readRecord_eq_none_of_holds origin h hsections c
  | inside hschema hname =>
    cases h with
    | @inside _ _ _ inner below hinner h =>
      refine readRecord_eq_none_of_mem origin (NameMap.mem_of_lookup hinner) (fun a => ?_) c
      simp only [schema, List.mem_cons, Prod.mk.injEq, List.not_mem_nil, or_false] at hschema
      rcases hschema with ⟨rfl, rfl⟩ | ⟨rfl, rfl⟩
      · have hsettings : _ ∉ suiteSettings.map Setting.name := hname
        exact readRecord_eq_none_of_holds below h hsettings a
      · have hsettings : _ ∉ sourceSettings.map Setting.name := hname
        change (readRecord sourceSettings a.sources (.table below inner)).map _ = none
        rw [readRecord_eq_none_of_holds below h hsettings, Option.map_none]

end Refused

theorem read?_of_isReadFrom {d : Document} {text : List Char} (h : d.IsReadFrom text) :
    read? text = some d.overridden := by
  obtain ⟨t, hread, ht⟩ := h
  rw [read?, hread]
  change readRecord sections {} (.table .header t) = _
  exact readRecord_parts d.nodup ht {}

theorem read?_of_holds {text : List Char} {t : Table} {path : List String}
    (hread : Toml.read text = some t) (hholds : Table.Holds path t) (hforeign : Foreign path) :
    read? text = none := by
  rw [read?, hread]
  exact readRecord_sections_eq_none .header hholds hforeign {}

/-- After some of the lines of a document, a line that adds something else spoils it. -/
theorem read?_of_adds {d : Document} {text rest : List Char} {path : List String}
    (h : d.Spells text rest) (hadds : Adds (lastTable d.tables) path rest)
    (hforeign : Foreign path) : read? text = none := by
  cases hread : Toml.read text with
  | none => simp [read?, hread]
  | some t =>
    have hholds := read_of_tables_of_adds d.nodup_tables (fun e he => d.nodup_settings he) h hadds
      hread
    exact read?_of_holds hread hholds hforeign.take

theorem load_of_content {fs : FileSystem} {root : Path} {explicit : Option Path}
    {content : List UInt8} (h : fs.content? (pathOf root explicit) = some content) :
    load fs root explicit = loadFile (pathOf root explicit) content := by
  cases explicit with
  | none =>
    rw [pathOf, Option.getD_none] at h
    simp [load, pathOf, h]
  | some path =>
    rw [pathOf, Option.getD_some] at h
    simp [load, pathOf, h]

/-- A document that is spelled, or read as its tables in whatever way, comes to the defaults with
the settings replaced that it names. A line that adds something else spoils it, whatever follows,
and so does any table in which something else is found. A file with the text is loaded if the suites
are there, none of them blank and none of them twice, and is refused as invalid otherwise. A path
that is given is not passed over. -/
theorem load_overrides (d : Document) :
    (∃ text, d.Spells text []) ∧
      (∀ text, d.Spells text [] → d.IsReadFrom text) ∧
      (∀ text, d.IsReadFrom text → read? text = some d.overridden ∧
        ∀ fs root explicit,
          fs.content? (pathOf root explicit) = some (Text.Utf8.encode text) →
          (load fs root explicit = .ok d.overridden ↔
            d.overridden.expected ≠ [] ∧
              (∀ name ∈ d.overridden.expected, Text.isBlank name.toList = false) ∧
              d.overridden.expected.Nodup) ∧
          (load fs root explicit = .ok d.overridden ∨
            ∃ defect, load fs root explicit = .error (.invalid (pathOf root explicit) defect))) ∧
      (∀ text rest path, d.Spells text rest → Adds (lastTable d.tables) path rest →
        Foreign path → read? text = none) ∧
      (∀ text t path, Toml.read text = some t → Table.Holds path t → Foreign path →
        read? text = none) ∧
      ∀ (fs : FileSystem) root path, fs.content? path = none →
        load fs root (some path) =
          .error (if fs.isFile path then .unread path else .missing path) := by
  refine ⟨d.exists_spells [], fun _ => Document.isReadFrom_of_spells, fun text hread => ?_,
    fun _ _ _ => read?_of_adds, fun _ _ _ => read?_of_holds, fun fs root path hpath => ?_⟩
  · refine ⟨read?_of_isReadFrom hread, fun fs root explicit hcontent => ?_⟩
    rw [load_of_content hcontent, ← defect?_eq_none_iff, loadFile, Text.Utf8.decode?_encode]
    simp only [read?_of_isReadFrom hread]
    cases hdefect : d.overridden.defect? with
    | none => simp
    | some defect => simp
  · simp only [load, hpath]

/-- Names a setting of either table, the second table first. -/
def contractAndSuite : Document where
  parts := [.taxonomy [("contract", "c")] (by decide) (by decide), .suites (some ["a\n"])]
  nodup := by decide

def contractLines : List Char :=
  "[taxonomy]\ncontract = 'c' # kept\r\n".toList

def suiteLines : List Char :=
  "[ suites ]\nexpected=[\"a\\n\", ]\n".toList

theorem spellsLines_contractLines {said : List Statement} {t rest : List Char}
    (h : SpellsLines said t rest) :
    SpellsLines (.openTable [] "taxonomy" :: .assign ["contract"] (.text "c") :: said)
      (contractLines ++ t) rest := by
  have hcomment : LineEnd (" # kept\r\n".toList ++ t) t :=
    @LineEnd.comment _ " kept".toList _ _ (.blank rfl .none) (by decide) .crlf
  have htext : SpellsText "c" ("'c' # kept\r\n".toList ++ t) (" # kept\r\n".toList ++ t) :=
    .literal (.plain rfl (by decide) .close)
  have hsetting : SpellsLine (some (.assign ["contract"] (.text "c")))
      ("contract = 'c' # kept\r\n".toList ++ t) t :=
    .setting (.one .none (.bare (by decide) (by decide))) (.blank rfl .none) (.blank rfl .none)
      (.text htext) hcomment
  have htable : SpellsLine (some (.openTable [] "taxonomy")) (contractLines ++ t)
      ("contract = 'c' # kept\r\n".toList ++ t) :=
    .table .none (.one .none (.bare (by decide) (by decide))) .none (.bare .none .newline)
  exact .cons htable (.cons hsetting h)

theorem spellsLines_suiteLines {said : List Statement} {t rest : List Char}
    (h : SpellsLines said t rest) :
    SpellsLines (.openTable [] "suites" :: .assign ["expected"] (.list false [.text "a\n"]) :: said)
      (suiteLines ++ t) rest := by
  have hitem : SpellsText "a\n" ("\"a\\n\", ]\n".toList ++ t) (", ]\n".toList ++ t) :=
    .basic (.plain rfl (by decide) (by decide) (.letter (by decide) .close))
  have hitems : SpellsItems ["a\n"] ("\"a\\n\", ]\n".toList ++ t) ('\n' :: t) :=
    .more (.blanks .none) hitem (.blanks .none) (.close (.blanks (.blank rfl .none)))
  have hsetting : SpellsLine (some (.assign ["expected"] (.list false [.text "a\n"])))
      ("expected=[\"a\\n\", ]\n".toList ++ t) t :=
    .setting (.one .none (.bare (by decide) (by decide))) .none .none (.list hitems)
      (.bare .none .newline)
  have htable : SpellsLine (some (.openTable [] "suites")) (suiteLines ++ t)
      ("expected=[\"a\\n\", ]\n".toList ++ t) :=
    .table .none (.one (.blank rfl .none) (.bare (by decide) (by decide))) (.blank rfl .none)
      (.bare .none .newline)
  exact .cons htable (.cons hsetting h)

theorem spells_contractAndSuite (rest : List Char) :
    contractAndSuite.Spells (contractLines ++ (suiteLines ++ rest)) rest :=
  spellsLines_contractLines (spellsLines_suiteLines .none)

/-- The document in the root of a code base. -/
def configured : FileSystem where
  root := .folder
    [("paritygate.toml", .file (Text.Utf8.encode (contractLines ++ (suiteLines ++ []))))]
  workingPlace := []

theorem load_overrides_contractAndSuite :
    read? (contractLines ++ (suiteLines ++ [])) =
        some { expected := ["a\n"], sources := { contract := "c" } } ∧
      load configured "" none = .ok { expected := ["a\n"], sources := { contract := "c" } } ∧
      read? (contractLines ++ (suiteLines ++ "tier = ".toList)) = none ∧
      read? "taxonomy.tier = 1".toList = none ∧
      load configured "" (some "other.toml") = .error (.missing "other.toml") := by
  obtain ⟨-, hwritten, hread, hadds, hholds, hmissing⟩ := load_overrides contractAndSuite
  obtain ⟨hconfig, hload⟩ := hread _ (hwritten _ (spells_contractAndSuite []))
  obtain ⟨haccepted, -⟩ := hload configured "" none (by decide +kernel)
  have htier : Adds (lastTable contractAndSuite.tables) ["suites", "tier"] "tier = ".toList :=
    .setting (.one .none (.bare (by decide) (by decide))) (.blank rfl .none)
  have hsuites : ("suites", ["expected"]) ∈ schema := by decide
  have htaxonomy : ("taxonomy", sourceNames) ∈ schema := by decide
  have hdotted : Toml.read "taxonomy.tier = 1".toList =
      some [("taxonomy", .table .dotted [("tier", .scalar)])] := rfl
  refine ⟨hconfig, haccepted.2 (by decide +kernel), ?_, ?_,
    hmissing configured "" "other.toml" (by decide +kernel)⟩
  · exact hadds _ _ _ (spells_contractAndSuite _) htier (.inside hsuites (by decide))
  · exact hholds _ _ ["taxonomy", "tier"] hdotted (.inside rfl (.here rfl))
      (.inside htaxonomy (by decide))

end Config

end ReleaseGate
