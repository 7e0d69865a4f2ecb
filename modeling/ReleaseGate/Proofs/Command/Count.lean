import ReleaseGate.Command.Run
import ReleaseGate.Proofs.Contract.Reread
import ReleaseGate.Proofs.Evidence.Readable
import ReleaseGate.Proofs.Taxonomy.Assemble
import ReleaseGate.Proofs.Taxonomy.Build

/-!
# Counting again

The metrics of a taxonomy name the command that counts their dimension again. On the same files it
prints what they record, and it fails if the taxonomy cannot be counted.
-/
namespace ReleaseGate.Command

open Files Json Taxonomy

/-- The command that a dimension names, run for a root and a configuration, with a document for its
output. -/
def countArguments (kind : DimensionKind) (root : Path) (config : Option Path) : List String :=
  ["count", "--" ++ kind.name, "--repo-root=" ++ root] ++
    config.toList.map ("--config=" ++ ·) ++ ["--json"]

theorem splitOption?_attached (name value : String) (h : '=' ∉ name.toList) :
    splitOption? ("--" ++ name ++ "=" ++ value) = some (name, some value) := by
  have hname : ∀ c ∈ name.toList, (c != '=') = true := by
    intro c hc
    have hne : c ≠ '=' := fun he => h (he ▸ hc)
    simpa using hne
  have hbody : ("--" ++ name ++ "=" ++ value).toList =
      '-' :: '-' :: (name.toList ++ '=' :: value.toList) := by
    simp [String.toList_append]
  rw [splitOption?, hbody]
  simp only [List.takeWhile_append_of_pos hname, List.dropWhile_append_of_pos hname]
  simp

theorem ne_dashes_of_splitOption? {arg name : String} {attached : Option String}
    (h : splitOption? arg = some (name, attached)) (hname : name ≠ "") : arg ≠ "--" := by
  rintro rfl
  have hdashes : splitOption? "--" = some ("", none) := by decide +kernel
  rw [hdashes, Option.some.injEq, Prod.mk.injEq] at h
  exact hname h.1.symm

theorem collect_flag {spec : Spec} {given : Given} {arg name : String} (rest : List String)
    (harg : splitOption? arg = some (name, none)) (hname : name ≠ "")
    (hspec : name ∈ spec.flags) (hnew : name ∉ given.flags) :
    collect spec given (arg :: rest) =
      collect spec { given with flags := name :: given.flags } rest := by
  rw [collect, if_neg (ne_dashes_of_splitOption? harg hname), harg]
  simp [hspec, hnew]

theorem collect_option {spec : Spec} {given : Given} {arg name value : String}
    (rest : List String) (harg : splitOption? arg = some (name, some value)) (hname : name ≠ "")
    (hflag : name ∉ spec.flags) (hspec : name ∈ spec.options)
    (hnew : given.options.lookup name = none) :
    collect spec given (arg :: rest) =
      collect spec { given with options := (name, value) :: given.options } rest := by
  rw [collect, if_neg (ne_dashes_of_splitOption? harg hname), harg]
  simp [hflag, hspec, hnew]

theorem splitOption?_flag (kind : DimensionKind) :
    splitOption? ("--" ++ kind.name) = some (kind.name, none) := by
  cases kind <;> decide +kernel

/-- Nothing but the dimension, the root, the configuration and the output is given. -/
theorem collect_countArguments (kind : DimensionKind) (root : Path) (config : Option Path) :
    collect countSpec {} (countArguments kind root config).tail =
      some ⟨["json", kind.name], config.toList.map ("config", ·) ++ [("repo-root", root)]⟩ := by
  have hroot : splitOption? ("--repo-root=" ++ root) = some ("repo-root", some root) :=
    splitOption?_attached "repo-root" root (by decide)
  have hconfig : ∀ path : Path, splitOption? ("--config=" ++ path) = some ("config", some path) :=
    fun path => splitOption?_attached "config" path (by decide)
  have hjson : splitOption? "--json" = some ("json", none) := by decide +kernel
  have hnew : "json" ∉ [kind.name] := by cases kind <;> decide
  -- one step for each argument; none has been given before
  change collect countSpec {} (("--" ++ kind.name) :: ("--repo-root=" ++ root) ::
    (config.toList.map ("--config=" ++ ·) ++ ["--json"])) = _
  rw [collect_flag _ (splitOption?_flag kind) (by cases kind <;> decide)
      (by cases kind <;> decide) List.not_mem_nil,
    collect_option _ hroot (by decide) (by decide) (by decide) rfl]
  cases config with
  | none =>
    change collect countSpec _ ["--json"] = _
    rw [collect_flag _ hjson (by decide) (by decide) hnew]
    rfl
  | some path =>
    change collect countSpec _ [("--config=" ++ path), "--json"] = _
    rw [collect_option _ (hconfig path) (by decide) (by decide) (by decide) rfl,
      collect_flag _ hjson (by decide) (by decide) hnew]
    rfl

theorem ofArguments?_countArguments (kind : DimensionKind) (root : Path) (config : Option Path) :
    Request.ofArguments? (countArguments kind root config) =
      some (.count kind root config true) := by
  have hcollect := collect_countArguments kind root config
  change Request.ofArguments? ("count" :: (countArguments kind root config).tail) = _
  rw [Request.ofArguments?, if_neg (by decide +kernel), if_neg (by decide), if_neg (by decide),
    if_pos rfl, hcollect]
  cases kind <;> cases config <;> rfl

variable {fs : FileSystem} {root : Path} {s : Sources}

/-- What is printed of a dimension besides what a taxonomy records. -/
def otherRows (c : Counts) : DimensionKind → List (String × UInt64)
  | .loc => [("files", c.loc.files.toUInt64)]
  | _ => []

theorem nodup_tableLabels (kind : DimensionKind) (c : Counts) :
    ((otherRows c kind ++ kind.rows c).map (·.1)).Nodup := by
  cases kind <;> simp [otherRows, DimensionKind.rows]

/-- A dimension that can be counted with the others is counted alike alone. -/
theorem countTable_of_collect {c : Counts} (h : s.collect fs root = .ok c) (kind : DimensionKind) :
    countTable fs root s kind = .ok (kind.source s, otherRows c kind ++ kind.rows c) := by
  obtain ⟨hloc, hproviders, hextensions⟩ := Sources.collect_eq_ok_iff.1 h
  cases kind with
  | loc =>
    rw [countTable, hloc]
    rfl
  | providers =>
    rw [countTable, hproviders]
    rfl
  | extensions =>
    rw [countTable, hextensions]
    rfl

/-- The first dimension that cannot be counted ends the collection with its error. -/
theorem exists_first_error {kind : DimensionKind} {e : BuildError}
    (h : countTable fs root s kind = .error e) :
    ∃ before first after fault, DimensionKind.all = before ++ first :: after ∧
      (∀ earlier ∈ before, ∃ table, countTable fs root s earlier = .ok table) ∧
      countTable fs root s first = .error fault ∧ s.collect fs root = .error fault := by
  -- the dimensions are counted in order, so whatever is counted before the fault is there
  cases hloc : s.countLines fs root with
  | error fault =>
    refine ⟨[], .loc, [.providers, .extensions], fault, rfl, by simp, ?_, ?_⟩
    · rw [countTable, hloc]
      rfl
    · rw [Sources.collect, hloc]
      rfl
  | ok loc =>
    have hlocTable : ∃ table, countTable fs root s .loc = .ok table := by
      rw [countTable, hloc]
      exact ⟨_, rfl⟩
    cases hproviders : s.countProviders fs root with
    | error fault =>
      refine ⟨[.loc], .providers, [.extensions], fault, rfl, by simpa using hlocTable, ?_, ?_⟩
      · rw [countTable, hproviders]
        rfl
      · rw [Sources.collect, hloc, hproviders]
        rfl
    | ok providers =>
      have hproviderTable : ∃ table, countTable fs root s .providers = .ok table := by
        rw [countTable, hproviders]
        exact ⟨_, rfl⟩
      cases hextensions : s.countExtensions fs root with
      | error fault =>
        refine ⟨[.loc, .providers], .extensions, [], fault, rfl, ?_, ?_, ?_⟩
        · rintro earlier (_ | ⟨_, _ | ⟨_, ⟨⟩⟩⟩)
          · exact hlocTable
          · exact hproviderTable
        · rw [countTable, hextensions]
          rfl
        · rw [Sources.collect, hloc, hproviders, hextensions]
          rfl
      | ok extensions =>
        have hcollect : s.collect fs root = .ok ⟨loc, providers, extensions⟩ :=
          Sources.collect_eq_ok_iff.2 ⟨hloc, hproviders, hextensions⟩
        rw [countTable_of_collect hcollect kind] at h
        cases h

variable {explicit : Option Path} {config : Config} {kind : DimensionKind}

theorem count_of_table {source : String} {rows : List (String × UInt64)}
    (hload : Config.load fs root explicit = .ok config)
    (htable : countTable fs root config.sources kind = .ok (source, rows)) (json : Bool) :
    count fs kind root explicit json =
      { output :=
          if json then lines [(countValue kind.name source (.ofList rows)).prettyText]
          else lines (countLines kind.name source (.ofList rows)) } := by
  simp only [count, hload, htable]

theorem count_of_error {e : BuildError} (hload : Config.load fs root explicit = .ok config)
    (htable : countTable fs root config.sources kind = .error e) (json : Bool) :
    count fs kind root explicit json = refused 1 e.message := by
  simp only [count, hload, htable]

/-- Sorting the fields of a record keeps it readable. -/
theorem readable_sortedRecord {room : ℕ} {fields : List (String × Value)}
    (hnames : (fields.map (·.1)).Nodup) (h : fields.Forall fun e => e.2.Readable room) :
    (sortedRecord fields).Readable (room + 1) := by
  refine .record (NameMap.nodup_names _) fun e he => ?_
  have hlookup := NameMap.mem_entries_iff.1 he
  rw [NameMap.get?_ofList hnames] at hlookup
  exact List.forall_iff_forall_mem.1 h _ (NameMap.mem_of_lookup hlookup)

theorem field?_sortedRecord {fields : List (String × Value)} (hnames : (fields.map (·.1)).Nodup)
    (name : String) : (sortedRecord fields).field? name = fields.lookup name :=
  NameMap.get?_ofList hnames name

def countsValue (counts : NameMap UInt64) : Value :=
  .record (counts.entries.map fun e => (e.1, .word e.2))

theorem field?_countsValue (counts : NameMap UInt64) (label : String) :
    (countsValue counts).field? label = (counts.get? label).map Value.word :=
  counts.lookup_map_entries Value.word label

theorem readable_countsValue (room : ℕ) (counts : NameMap UInt64) :
    (countsValue counts).Readable (room + 1) :=
  Value.readable_entries counts fun n => Value.readable_word room n

theorem readable_countValue (room : ℕ) (dimension source : String) (counts : NameMap UInt64) :
    (countValue dimension source counts).Readable (room + 2) :=
  readable_sortedRecord (by simp)
    ⟨Value.readable_word _ 1, .text _ _, .text _ _, readable_countsValue room counts⟩

theorem field?_countValue (dimension source : String) (counts : NameMap UInt64) :
    (countValue dimension source counts).field? "dimension" = some (.text dimension) ∧
      (countValue dimension source counts).field? "source" = some (.text source) ∧
      (countValue dimension source counts).field? "counts" = some (countsValue counts) := by
  have hnames : ([("schema", Value.nat 1), ("dimension", .text dimension), ("source", .text source),
      ("counts", countsValue counts)].map (·.1)).Nodup := by
    simp
  exact ⟨field?_sortedRecord hnames "dimension", field?_sortedRecord hnames "source",
    field?_sortedRecord hnames "counts"⟩

theorem readValue_lines {v : Value} (h : v.Readable nestingLimit) :
    readValue (Text.Utf8.encode (lines [v.prettyText]).toList) = .ok v.reread := by
  have htext : (lines [v.prettyText]).toList = pretty 0 v ++ ['\n'] := by
    simp [lines, Value.prettyText]
  rw [htext]
  exact readValue_pretty h

theorem reread_word (n : UInt64) : (Value.word n).reread = .word n := by
  have hle : n.toNat ≤ maxWord := Nat.le_of_lt_succ n.toNat_lt
  rw [Value.word, Value.nat, Value.reread, toNumber?_nat hle, Option.getD_some]

/-- The printed document, read back, names the dimension and its source and has every count under
its label. -/
theorem exists_readValue_countValue (dimension source : String) {rows : List (String × UInt64)}
    (hnames : (rows.map (·.1)).Nodup) :
    ∃ v counts, readValue (Text.Utf8.encode
        (lines [(countValue dimension source (.ofList rows)).prettyText]).toList) = .ok v ∧
      v.field? "dimension" = some (.text dimension) ∧ v.field? "source" = some (.text source) ∧
      v.field? "counts" = some counts ∧
      ∀ row ∈ rows, counts.field? row.1 = some (.word row.2) := by
  have hreadable : (countValue dimension source (.ofList rows)).Readable nestingLimit :=
    readable_countValue 125 dimension source _
  have hcounts := readable_countsValue 0 (.ofList rows)
  obtain ⟨hdimension, hsource, hfield⟩ := field?_countValue dimension source (.ofList rows)
  refine ⟨_, (countsValue (.ofList rows)).reread, readValue_lines hreadable, ?_, ?_, ?_,
    fun row hrow => ?_⟩
  · rw [Value.field?_reread hreadable, hdimension, Option.map_some, Value.reread]
  · rw [Value.field?_reread hreadable, hsource, Option.map_some, Value.reread]
  · rw [Value.field?_reread hreadable, hfield, Option.map_some]
  · rw [Value.field?_reread hcounts, field?_countsValue, NameMap.get?_ofList hnames,
      NameMap.lookup_of_mem hnames hrow, Option.map_some, Option.map_some, reread_word]

/-- A taxonomy of the given sources can be counted again: the command that the metrics of a
dimension name prints a document with the dimension, the source of its metrics and, under the label
of each metric, its value. If a dimension cannot be counted again, no taxonomy can be built either,
and the build fails as the first dimension does that cannot be counted. -/
theorem count_reproduces_build {fs : FileSystem} {root : Path} {explicit : Option Path}
    {config : Config} (now : Time.Instant) (hload : Config.load fs root explicit = .ok config) :
    (∀ t, Taxonomy.build fs root config.sources = .ok t → ∀ kind : DimensionKind,
      (∀ json, (run fs now (.count kind root explicit json)).2.exitCode = 0) ∧
      ∃ request answer v counts d,
        Request.ofArguments? (countArguments kind root explicit) = some request ∧
        run fs now request = (fs, answer) ∧ answer.exitCode = 0 ∧
        readValue (Text.Utf8.encode answer.output.toList) = .ok v ∧
        v.field? "dimension" = some (.text kind.name) ∧ v.field? "counts" = some counts ∧
        t.dimensions.get? kind.name = some d ∧ d.metrics ≠ [] ∧
        ∀ m ∈ d.metrics, m.provenance.commandSignature = "paritygate count --" ++ kind.name ∧
          v.field? "source" = some (.text m.provenance.source) ∧
          counts.field? m.label = some (.word m.value)) ∧
      ∀ kind json, (run fs now (.count kind root explicit json)).2.exitCode ≠ 0 →
        ∃ before first after e, DimensionKind.all = before ++ first :: after ∧
          (∀ earlier ∈ before, (run fs now (.count earlier root explicit json)).2.exitCode = 0) ∧
          countTable fs root config.sources first = .error e ∧
          run fs now (.count first root explicit json) = (fs, refused 1 e.message) ∧
          Taxonomy.build fs root config.sources = .error e := by
  constructor
  · intro t hbuild kind
    obtain ⟨c, contract, bytes, hcollect, -, rfl, -⟩ := Taxonomy.build_eq_ok_iff.1 hbuild
    have htable := countTable_of_collect hcollect kind
    obtain ⟨v, counts, hread, hdimension, hsource, hcounts, hvalue⟩ :=
      exists_readValue_countValue kind.name (kind.source config.sources) (nodup_tableLabels kind c)
    have hanswer := count_of_table hload htable true
    rw [if_pos rfl] at hanswer
    refine ⟨fun json => congrArg Answer.exitCode (count_of_table hload htable json),
      .count kind root explicit true, count fs kind root explicit true, v, counts,
      kind.dimension c config.sources, ofArguments?_countArguments kind root explicit, rfl,
      by rw [hanswer], by rw [hanswer]; exact hread, hdimension, hcounts,
      get?_dimensions_assemble.2 ⟨kind, rfl, rfl⟩, ?_, ?_⟩
    · obtain ⟨row, hrow⟩ := kind.exists_row c
      exact List.ne_nil_of_mem (List.mem_map_of_mem hrow)
    · intro m hm
      obtain ⟨row, hrow, rfl⟩ := List.mem_map.1 hm
      exact ⟨rfl, hsource, hvalue row (List.mem_append_right _ hrow)⟩
  · intro kind json hfails
    cases htable : countTable fs root config.sources kind with
    | ok table =>
      have hanswer := count_of_table hload htable json
      exact absurd (congrArg Answer.exitCode hanswer) hfails
    | error e =>
      obtain ⟨before, first, after, fault, hall, hbefore, hfirst, hcollect⟩ :=
        exists_first_error htable
      refine ⟨before, first, after, fault, hall, fun earlier hearlier => ?_, hfirst,
        congrArg (Prod.mk fs) (count_of_error hload hfirst json),
        Taxonomy.build_eq_error_of_collect hcollect⟩
      obtain ⟨table, hok⟩ := hbefore earlier hearlier
      exact congrArg Answer.exitCode (count_of_table hload hok json)

/-- A code base with settings of its own for every source, and no two counts alike in a
dimension. -/
def tieredCatalog : FileSystem where
  root := .folder
    [("gate.toml", .file (Text.Utf8.encode
        "taxonomy = ['code/', 'txt', 'p', 'c', 'k', 'o', 'x']".toList)),
      ("repo", .folder
        [("code", .folder [("a.txt", .file (Text.Utf8.encode "x\n\n// y\n".toList))]),
          ("p", .file (Text.Utf8.encode
            "canonical_id: \"a\", aliases: &[\"b\", \"c\"],\n".toList)),
          ("c", .file (Text.Utf8.encode "[[[\"o\"], [\"x\"], [\"o\"], [\"z\"]]]".toList)),
          ("k", .file (Text.Utf8.encode "[\"pi.qa.counting_taxonomy.v1\"]".toList))])]
  workingPlace := []

/-- The same without provider metadata, and with a catalog that does not decode. -/
def brokenCatalog : FileSystem :=
  (tieredCatalog.put ["repo", "p"] (.folder [])).put ["repo", "c"] (.file [])

theorem count_reproduces_build_tieredCatalog :
    (∃ config t request answer v counts,
      Config.load tieredCatalog "repo" (some "gate.toml") = .ok config ∧
        Taxonomy.build tieredCatalog "repo" config.sources = .ok t ∧
        Request.ofArguments?
          ["count", "--extensions", "--repo-root=repo", "--config=gate.toml", "--json"] =
            some request ∧
        run tieredCatalog {} request = (tieredCatalog, answer) ∧ answer.exitCode = 0 ∧
        readValue (Text.Utf8.encode answer.output.toList) = .ok v ∧
        v.field? "dimension" = some (.text "extensions") ∧ v.field? "source" = some (.text "c") ∧
        v.field? "counts" = some counts ∧
        counts.field? "extension_official_subset" = some (.word 2) ∧
        counts.field? "extension_community_subset" = some (.word 1) ∧
        counts.field? "extension_full_corpus" = some (.word 4)) ∧
      ∃ config e, Config.load brokenCatalog "repo" (some "gate.toml") = .ok config ∧
        run brokenCatalog {} (.count .providers "repo" (some "gate.toml") false) =
          (brokenCatalog, refused 1 e.message) ∧
        Taxonomy.build brokenCatalog "repo" config.sources = .error e := by
  constructor
  · have hload : Config.load tieredCatalog "repo" (some "gate.toml") =
        .ok { sources := ⟨"code/", "txt", "p", "c", "k", "o", "x"⟩ } := by
      decide +kernel
    have hmetrics : (Taxonomy.build tieredCatalog "repo"
        ⟨"code/", "txt", "p", "c", "k", "o", "x"⟩).toOption.bind (fun t =>
          (t.dimensions.get? "extensions").map fun d =>
            d.metrics.map fun m => (m.label, m.value, m.provenance.source)) =
        some [("extension_official_subset", 2, "c"), ("extension_community_subset", 1, "c"),
          ("extension_full_corpus", 4, "c")] := by
      decide +kernel
    cases hbuild : Taxonomy.build tieredCatalog "repo"
        ⟨"code/", "txt", "p", "c", "k", "o", "x"⟩ with
    | error e => simp [hbuild, Except.toOption] at hmetrics
    | ok t =>
      obtain ⟨-, request, answer, v, counts, d, hrequest, hrun, hexit, hread, hdimension, hcounts,
        hd, -, hvalues⟩ := (count_reproduces_build {} hload).1 t hbuild .extensions
      have hd' : t.dimensions.get? "extensions" = some d := hd
      simp only [hbuild, Except.toOption, Option.bind_some, hd', Option.map_some,
        Option.some.injEq] at hmetrics
      have hvalue : ∀ row ∈ d.metrics.map fun m => (m.label, m.value, m.provenance.source),
          v.field? "source" = some (.text row.2.2) ∧
            counts.field? row.1 = some (.word row.2.1) := by
        intro row hrow
        obtain ⟨m, hm, rfl⟩ := List.mem_map.1 hrow
        exact (hvalues m hm).2
      rw [hmetrics] at hvalue
      exact ⟨_, t, request, answer, v, counts, hload, hbuild, hrequest, hrun, hexit, hread,
        hdimension, (hvalue _ (.head _)).1, hcounts, (hvalue _ (.head _)).2,
        (hvalue _ (.tail _ (.head _))).2, (hvalue _ (.tail _ (.tail _ (.head _)))).2⟩
  · have hload : Config.load brokenCatalog "repo" (some "gate.toml") =
        .ok { sources := ⟨"code/", "txt", "p", "c", "k", "o", "x"⟩ } := by
      decide +kernel
    have hexits : [DimensionKind.loc, .providers, .extensions].map (fun kind =>
        (run brokenCatalog {} (.count kind "repo" (some "gate.toml") false)).2.exitCode) =
          [0, 1, 1] := by
      decide +kernel
    simp only [List.map_cons, List.map_nil, List.cons.injEq, and_true] at hexits
    obtain ⟨hloc, hproviders, hextensions⟩ := hexits
    obtain ⟨before, first, after, e, hall, hbefore, -, hfirst, hbuild⟩ :=
      (count_reproduces_build {} hload).2 .extensions false (by rw [hextensions]; decide)
    -- the lines are counted, so the first dimension that cannot be is that of the providers
    cases first with
    | loc => simp [hfirst, refused] at hloc
    | providers => exact ⟨_, e, hload, hfirst, hbuild⟩
    | extensions =>
      have hearlier : DimensionKind.providers ∈ before := by
        rcases before with _ | ⟨_, _ | ⟨_, _⟩⟩ <;> simp [DimensionKind.all] at hall
        simp [← hall.2.1]
      simp [hbefore _ hearlier] at hproviders

end ReleaseGate.Command
