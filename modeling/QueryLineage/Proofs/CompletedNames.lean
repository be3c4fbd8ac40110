import QueryLineage.CommandLine
import QueryLineage.Proofs.AnalysisRuns
import QueryLineage.Proofs.CteListing
import QueryLineage.Proofs.SourceGrounding

/-!
# Names that defaults complete

A table name is read with one to three segments, none of them blank, and then completed by the
default project and dataset. It still is such a name just when the defaults fit in front of it
(`TableDefaults.Fit`), and as a statement may refer to any table, every name that a command writes
is one just when they do (`tables_of_load`).

Defaults from a file fit, for a configuration is validated when it is read. Those of the command
line take the place of these afterwards and are not validated, so it is up to whoever gives them
that they fit.
-/

namespace QueryLineage

namespace TableName

/-- The name has no more segments than a name is read with, and none of them is blank. -/
def IsProper (t : TableName) : Prop :=
  t.segments.length ≤ maxSegments ∧ ∀ s ∈ t.segments, Text.isBlankText s = false

instance : DecidablePred IsProper := fun t =>
  inferInstanceAs (Decidable
    (t.segments.length ≤ maxSegments ∧ ∀ s ∈ t.segments, Text.isBlankText s = false))

theorem isProper_of_ofSegments {path : List String} {t : TableName}
    (h : ofSegments path = .ok t) : t.IsProper := by
  obtain ⟨hsegments, hsolid⟩ := segments_of_ofSegments h
  refine ⟨?_, hsegments ▸ hsolid⟩
  unfold ofSegments at h
  split at h
  · cases h
  · split at h
    · cases h
    · split at h
      · cases h
      · rename_i hshort
        cases h
        exact Nat.le_of_not_lt hshort

theorem isProper_under_iff {outer : String} {t : TableName} :
    (t.under outer).IsProper
      ↔ (Text.split '.' outer).length + t.segments.length ≤ maxSegments
        ∧ (∀ s ∈ Text.split '.' outer, Text.isBlankText s = false)
        ∧ ∀ s ∈ t.segments, Text.isBlankText s = false := by
  simp only [IsProper, under, List.length_append, List.mem_append, or_imp, forall_and]

/-- The name `t`. -/
def bare : TableName := ⟨["t"], by decide, by decide⟩

/-- The name `d.t`. -/
def inDataset : TableName := ⟨["d", "t"], by decide, by decide⟩

end TableName

namespace TableDefaults

/-- In front of a name there is room for the defaults: the project is one segment, the dataset is
no more than there is room for, and no segment of either is blank. -/
structure Fit (d : TableDefaults) : Prop where
  project : ∀ p ∈ d.project, (Text.split '.' p).length = 1
  dataset : ∀ s ∈ d.dataset,
    (Text.split '.' s).length + d.project.toList.length < TableName.maxSegments
  solid : ∀ outer ∈ d.project.toList ++ d.dataset.toList, ∀ s ∈ Text.split '.' outer,
    Text.isBlankText s = false

theorem fit_of_isSegment {d : TableDefaults} (hproject : Config.isSegment d.project = true)
    (hdataset : Config.isSegment d.dataset = true) : d.Fit := by
  have hsplit : ∀ o : Option String, Config.isSegment o = true → ∀ s ∈ o,
      Text.split '.' s = [s] ∧ Text.isBlankText s = false := by
    rintro _ hsegment s rfl
    simp only [Config.isSegment, Bool.and_eq_true, Bool.not_eq_true', List.contains_eq_mem,
      decide_eq_false_iff_not] at hsegment
    exact ⟨Text.split_of_not_mem hsegment.2, hsegment.1⟩
  refine ⟨fun p hp => ?_, fun s hs => ?_, fun outer houter s hs => ?_⟩
  · rw [(hsplit _ hproject p hp).1, List.length_singleton]
  · rw [(hsplit _ hdataset s hs).1, List.length_singleton]
    have hone : d.project.toList.length ≤ 1 := by cases d.project <;> simp
    exact Nat.lt_of_le_of_lt (Nat.add_le_add_left hone 1) (by decide)
  · have hall : Text.split '.' outer = [outer] ∧ Text.isBlankText outer = false := by
      simp only [List.mem_append, Option.mem_toList] at houter
      exact houter.elim (hsplit _ hproject outer) (hsplit _ hdataset outer)
    rw [hall.1, List.mem_singleton] at hs
    rw [hs, hall.2]

theorem isProper_qualify {d : TableDefaults} (hd : d.Fit) {t : TableName} (ht : t.IsProper) :
    (t.qualify d.project d.dataset).IsProper := by
  have hsolid : ∀ outer, outer ∈ d.project ∨ outer ∈ d.dataset → ∀ s ∈ Text.split '.' outer,
      Text.isBlankText s = false := by
    simpa using hd.solid
  unfold TableName.qualify
  split
  · rename_i hone hproject hdataset
    have hp := hd.project _ hproject
    have hs := hd.dataset _ hdataset
    rw [hproject, Option.toList_some, List.length_singleton] at hs
    refine TableName.isProper_under_iff.mpr ⟨?_, hsolid _ (.inl hproject), fun s hmem => ?_⟩
    · rw [TableName.under, List.length_append, hone, List.length_singleton, hp]
      omega
    · rcases List.mem_append.mp hmem with hmem | hmem
      · exact hsolid _ (.inr hdataset) s hmem
      · exact ht.2 s hmem
  · rename_i hone hproject hdataset
    have hs := hd.dataset _ hdataset
    refine TableName.isProper_under_iff.mpr ⟨?_, hsolid _ (.inr hdataset), ht.2⟩
    rw [hone, List.length_singleton]
    omega
  · rename_i hpair hproject
    refine TableName.isProper_under_iff.mpr ⟨?_, hsolid _ (.inl hproject), ht.2⟩
    rw [hpair, hd.project _ hproject]
    exact Nat.le_refl 3
  · exact ht

/-- **Defaults that fit keep names proper, and no others do.** Two names tell: a bare one and one
with its dataset. -/
theorem fit_iff {d : TableDefaults} :
    d.Fit ↔ (TableName.bare.qualify d.project d.dataset).IsProper
      ∧ (TableName.inDataset.qualify d.project d.dataset).IsProper := by
  constructor
  · intro hd
    exact ⟨isProper_qualify hd (by decide +kernel), isProper_qualify hd (by decide +kernel)⟩
  · rintro ⟨hbare, hpair⟩
    have hpieces : ∀ outer, 0 < (Text.split '.' outer).length := fun outer =>
      List.length_pos_of_ne_nil (Text.split_ne_nil '.' outer)
    rcases d with ⟨_ | p, _ | s⟩
    · exact ⟨by simp, by simp, by simp⟩
    · obtain ⟨hshort, hsolid, -⟩ := TableName.isProper_under_iff.mp hbare
      change (Text.split '.' s).length + 1 ≤ _ at hshort
      exact ⟨by simp, by simpa using Nat.lt_of_succ_le hshort, by simpa using hsolid⟩
    · obtain ⟨hshort, hsolid, -⟩ := TableName.isProper_under_iff.mp hpair
      have hone : (Text.split '.' p).length = 1 :=
        Nat.le_antisymm (Nat.le_of_add_le_add_right hshort) (hpieces p)
      exact ⟨by simpa using hone, by simp, by simpa using hsolid⟩
    · obtain ⟨hshort, hsolid, hrest⟩ := TableName.isProper_under_iff.mp hbare
      obtain ⟨hshort', -, -⟩ := TableName.isProper_under_iff.mp hpair
      have hone : (Text.split '.' p).length = 1 :=
        Nat.le_antisymm (Nat.le_of_add_le_add_right hshort') (hpieces p)
      have hroom : (Text.split '.' s).length + 1 < TableName.maxSegments := by
        rw [hone, TableName.under, List.length_append] at hshort
        change 1 + ((Text.split '.' s).length + 1) ≤ _ at hshort
        omega
      refine ⟨by simpa using hone, by simpa using hroom, fun outer houter x hx => ?_⟩
      rcases List.mem_append.mp houter with houter | houter
      · obtain rfl := List.mem_singleton.mp houter
        exact hsolid x hx
      · obtain rfl := List.mem_singleton.mp houter
        exact hrest x (List.mem_append_left _ hx)

end TableDefaults

/-! ## Configurations -/

namespace Config

theorem isSegment_of_validate {c : Config} (h : c.validate = .ok ()) :
    isSegment c.defaultProject = true ∧ isSegment c.defaultDataset = true := by
  unfold validate at h
  split at h
  · cases h
  · split at h
    · cases h
    · split at h
      · cases h
      · split at h
        · cases h
        · rename_i hproject hdataset
          exact ⟨by simpa using hproject, by simpa using hdataset⟩

theorem isSegment_or {o p : Option String} (ho : isSegment o = true) (hp : isSegment p = true) :
    isSegment (o.or p) = true := by
  cases o with
  | none => exact hp
  | some s => exact ho

/-- What is read from a file has been validated. -/
theorem validate_of_ofFile {path : String} {text : FileText} {c : Config}
    (h : ofFile path text = .ok c) : c.validate = .ok () := by
  cases text with
  | error reason => cases reason <;> cases h
  | ok text =>
      change ofText text = .ok c at h
      unfold ofText at h
      cases hread : Yaml.parse? text >>= ofYaml with
      | none =>
          rw [hread] at h
          cases h
      | some found =>
          rw [hread] at h
          change (found.validate.mapError ConfigError.invalid >>= fun _ => pure found) = .ok c at h
          cases hvalid : found.validate with
          | error defect =>
              rw [hvalid] at h
              cases h
          | ok done =>
              rw [hvalid] at h
              obtain rfl := Except.ok.inj h
              exact hvalid

end Config

/-! ## Tables -/

/-- The sources, and the tables of the common table expressions. -/
def LineageReport.tables (r : LineageReport) : List TableName :=
  r.sources ++ r.ctes.values.flatten

namespace CommandLine

open ResolvedCtes Relations

/-- The tables in what a command writes, or writes a part of. -/
def Command.tables (o : LineageOptions) (catalog : Option Catalog) (now : String)
    (r : LineageRequest) (c : Command) : Except LineageError (List TableName) :=
  match c with
  | .lineage _ | .sources _ =>
    ((r.report o (catalog.map cachedCatalog) now).run ([], ())).1.map fun found => found.1.tables
  | .ctes _ => (r.ctes o).map fun found => found.1.rows.flatMap CteRow.bases

theorem validate_of_loadConfig {h : Host Id} {o : GlobalOptions} {found : Config} {dir : String}
    (hload : loadConfig h o = .ok (found, dir)) : found = {} ∨ found.validate = .ok () := by
  have hfile : ∀ {path text wrap place}, ((Config.ofFile path text).mapError wrap).map (·, place)
      = (.ok (found, dir) : Except Failure (Config × String)) → found.validate = .ok () := by
    intro path text wrap place heq
    cases hread : Config.ofFile path text with
    | error e =>
        rw [hread] at heq
        cases heq
    | ok c =>
        rw [hread] at heq
        cases heq
        exact Config.validate_of_ofFile hread
  unfold loadConfig at hload
  split at hload
  · exact .inr (hfile hload)
  · dsimp only [bind, pure] at hload
    split at hload
    · exact .inr (hfile hload)
    · cases hload
      exact .inl rfl

theorem exists_of_run_mk_bind {α β : Type} {x : Except Failure α} {f : α → ExceptT Failure Id β}
    {b : β} (h : (ExceptT.mk (m := Id) x >>= f).run = .ok b) :
    ∃ a, x = .ok a ∧ (f a).run = .ok b := by
  cases x with
  | error failure => cases h
  | ok a => exact ⟨a, rfl, h⟩

/-- The configuration of a run comes from a file, validated, or is the one without a file; and then
the command line overrides it. -/
theorem config_of_load {h : Host Id} {i : Invocation} {config : Config} {catalog : Option Catalog}
    {sql : String} (hload : (i.load h).run = .ok (config, catalog, sql)) :
    ∃ found : Config, (found = {} ∨ found.validate = .ok ())
      ∧ config = Config.overridden found i.options := by
  obtain ⟨⟨found, dir⟩, hconfig, hrest⟩ := exists_of_run_mk_bind hload
  obtain ⟨_, -, hrest⟩ := exists_of_run_mk_bind hrest
  obtain ⟨_, -, hrest⟩ := exists_of_run_mk_bind hrest
  obtain rfl := congrArg Prod.fst (Except.ok.inj hrest)
  exact ⟨found, validate_of_loadConfig hconfig, rfl⟩

section Tables

variable {o : LineageOptions} {catalog : Option Catalog} {now : String} {r : LineageRequest}
  {root : Tree} {notices : List Notice}

theorem tables_eq_error {e : LineageError} (hroot : r.tree = .error e) (c : Command) :
    c.tables o catalog now r = .error e := by
  cases c with
  | lineage format | sources format =>
      rw [Command.tables, LineageRequest.report, hroot]
      rfl
  | ctes format =>
      rw [Command.tables, LineageRequest.ctes, hroot]
      rfl

theorem tables_report (hroot : r.tree = .ok (root, notices)) :
    ((r.report o (catalog.map cachedCatalog) now).run ([], ())).1.map (fun found => found.1.tables)
      = .ok ((Relations.ofTree o.defaults root).sources.toList
        ++ (ResolvedCtes.ofTree o.defaults root).summary.values.flatten) := by
  simp only [LineageRequest.report, hroot, StateT.run_bind, Analysis.run_ofTree]
  rfl

theorem tables_ctes (hroot : r.tree = .ok (root, notices)) (format : ListFormat) :
    (Command.ctes format).tables o catalog now r
      = .ok ((ResolvedCtes.ofTree o.defaults root).rows.flatMap CteRow.bases) := by
  rw [Command.tables, LineageRequest.ctes, hroot]
  rfl

theorem mem_values_summary_iff {defaults : TableDefaults} {t : TableName} :
    t ∈ (ResolvedCtes.ofTree defaults root).summary.values.flatten
      ↔ ∃ k, (ResolvedCtes.ofTree defaults root).Reads k t := by
  simp only [Dict.values, List.mem_flatten, List.mem_map]
  constructor
  · rintro ⟨_, ⟨e, he, rfl⟩, ht⟩
    obtain ⟨k, cte, hfound, rfl⟩ := mem_summary_iff.mp he
    exact ⟨k, cte, hfound, ht⟩
  · rintro ⟨k, cte, hfound, ht⟩
    exact ⟨_, ⟨_, mem_summary_iff.mpr ⟨k, cte, hfound, rfl⟩, rfl⟩, ht⟩

theorem mem_bases_rows_iff {defaults : TableDefaults} {t : TableName} :
    t ∈ (ResolvedCtes.ofTree defaults root).rows.flatMap CteRow.bases
      ↔ ∃ k, (ResolvedCtes.ofTree defaults root).Reads k t := by
  rw [List.mem_flatMap]
  constructor
  · rintro ⟨row, hrow, ht⟩
    obtain ⟨k, cte, hfound, rfl⟩ := mem_rows_iff.mp hrow
    exact ⟨k, cte, hfound, ht⟩
  · rintro ⟨k, cte, hfound, ht⟩
    exact ⟨_, mem_rows_iff.mpr ⟨k, cte, hfound, rfl⟩, ht⟩

/-- Whatever the command, the tables are sources, and what an expression reads is among them. A
report adds to its sources what the expressions read, and a listing names nothing else; by
`mem_sources_of_reads` both are sources. -/
theorem exists_tables (hroot : r.tree = .ok (root, notices)) (c : Command) :
    ∃ tables, c.tables o catalog now r = .ok tables
      ∧ (∀ t ∈ tables, t ∈ (Relations.ofTree o.defaults root).sources.toList)
      ∧ ∀ k t, (ResolvedCtes.ofTree o.defaults root).Reads k t → t ∈ tables := by
  have hreport : ∀ t, t ∈ (Relations.ofTree o.defaults root).sources.toList
        ++ (ResolvedCtes.ofTree o.defaults root).summary.values.flatten
      ↔ t ∈ (Relations.ofTree o.defaults root).sources.toList := by
    intro t
    rw [List.mem_append, mem_values_summary_iff, or_iff_left_iff_imp]
    rintro ⟨k, hreads⟩
    exact mem_sources_of_reads hreads
  cases c with
  | lineage format | sources format =>
      rw [Command.tables, tables_report hroot]
      exact ⟨_, rfl, fun t => (hreport t).mp,
        fun k t hreads => (hreport t).mpr (mem_sources_of_reads hreads)⟩
  | ctes format =>
      refine ⟨_, tables_ctes hroot format, fun t ht => ?_, fun k t hreads => ?_⟩
      · obtain ⟨k, hreads⟩ := mem_bases_rows_iff.mp ht
        exact mem_sources_of_reads hreads
      · exact mem_bases_rows_iff.mpr ⟨k, hreads⟩

end Tables

/-- A statement with an expression over a bare name and one with its dataset. -/
def bothNames : Tree :=
  ⟨.query, "WITH c AS (SELECT * FROM t, d.t) SELECT 1",
    [⟨.cte "c", "c AS (SELECT * FROM t, d.t)",
      [⟨.query, "SELECT * FROM t, d.t",
        [⟨.select, "SELECT * FROM t, d.t",
          [⟨.projection none none, "*", [.leaf (.expr .other) "*"]⟩,
            ⟨.fromClause, "t, d.t",
              [.leaf (.table ⟨["t"], none⟩) "t",
                ⟨.join "CROSS" .unconditional, ", d.t",
                  [.leaf (.table ⟨["d", "t"], none⟩) "d.t"]⟩]⟩]⟩]⟩]⟩,
      ⟨.select, "SELECT 1",
        [⟨.projection none none, "1", [.leaf (.expr .other) "1"]⟩]⟩]⟩

theorem tree_bothNames {dialect : String} {d : Dialect} (h : Dialect.ofName? dialect = some d) :
    (LineageRequest.mk bothNames.sql dialect).tree = .ok (bothNames, []) := by
  have hdialect : (LineageRequest.mk bothNames.sql dialect).tree
      = (LineageRequest.mk bothNames.sql d.name).tree := by
    have hname : Dialect.ofName? d.name = some d := by cases d <;> decide +kernel
    simp only [LineageRequest.tree, LineageRequest.statements, h, hname]
  rw [hdialect]
  cases d <;> decide +kernel

theorem namesTable_bothNames (defaults : TableDefaults) {t : TableName}
    (ht : t = .bare ∨ t = .inDataset) :
    bothNames.NamesTable defaults "c" (t.qualify defaults.project defaults.dataset) := by
  have hrefs : (bothNames.preorder.find? (·.definedKey? = some "c")).any
      (t.segments ∈ ·.tableRefs.map TableRef.path) = true := by
    rcases ht with rfl | rfl <;> decide +kernel
  have hfree : ∀ name ∈ t.segments, ¬bothNames.Defines (Text.lower name) := by
    unfold Tree.Defines
    rcases ht with rfl | rfl <;> decide +kernel
  have hread : TableName.ofSegments t.segments = .ok t := by
    rcases ht with rfl | rfl <;> decide +kernel
  obtain ⟨body, hbody, hpath⟩ := (Option.any_eq_true ..).mp hrefs
  obtain ⟨ref, href, hpath⟩ := List.mem_map.mp (of_decide_eq_true hpath)
  refine ⟨body, hbody, ref, href, fun name hname => hfree name ?_, ?_⟩
  · rw [← hpath, hname]
    exact List.mem_singleton_self name
  · rw [TableDefaults.resolve, hpath, hread]

theorem isProper_of_mem_sources {defaults : TableDefaults} (hd : defaults.Fit) {root : Tree}
    {t : TableName} (ht : t ∈ (Relations.ofTree defaults root).sources.toList) : t.IsProper := by
  obtain ⟨ref, -, -, hresolve⟩ := mem_sources.mp ht
  unfold TableDefaults.resolve at hresolve
  split at hresolve
  · rename_i name hname
    obtain rfl := Option.some.inj hresolve
    exact TableDefaults.isProper_qualify hd (TableName.isProper_of_ofSegments hname)
  · cases hresolve

/-- Every table of every statement has a proper name, just when the defaults fit. That they have to
fit is shown by one statement that names a table by itself and in a dataset. -/
theorem forall_isProper_iff {o : LineageOptions} {catalog : Option Catalog} {now dialect : String}
    {c : Command} :
    (∀ sql tables, c.tables o catalog now ⟨sql, dialect⟩ = .ok tables → ∀ t ∈ tables, t.IsProper)
      ↔ o.defaults.Fit ∨ Dialect.ofName? dialect = none := by
  constructor
  · intro h
    cases hdialect : Dialect.ofName? dialect with
    | none => exact .inr rfl
    | some d =>
        left
        obtain ⟨tables, htables, -, hreads⟩ := exists_tables (tree_bothNames hdialect) c
        have hproper : ∀ t : TableName, t = .bare ∨ t = .inDataset →
            (t.qualify o.defaults.project o.defaults.dataset).IsProper := fun t ht =>
          h _ tables htables _ (hreads _ _ (reads_of_namesTable (namesTable_bothNames _ ht)))
        exact TableDefaults.fit_iff.mpr ⟨hproper _ (.inl rfl), hproper _ (.inr rfl)⟩
  · rintro (hd | hdialect) sql tables htables t ht
    · cases hroot : (LineageRequest.mk sql dialect).tree with
      | error e =>
          rw [tables_eq_error hroot] at htables
          cases htables
      | ok found =>
          obtain ⟨_, hfound, hsources, -⟩ := exists_tables hroot c
          obtain rfl := Except.ok.inj (hfound.symm.trans htables)
          exact isProper_of_mem_sources hd (hsources t ht)
    · have hroot : (LineageRequest.mk sql dialect).tree = .error (.unknownDialect dialect) := by
        rw [LineageRequest.tree, LineageRequest.statements, hdialect]
        rfl
      rw [tables_eq_error hroot] at htables
      cases htables

/-- **What defaults make of the names of tables.** The defaults of a run are those of a validated
configuration, or none, where the command line does not override them. They fit if the overrides are
segments. And just when they fit, every table that the command can write has a proper name; a
dialect of no known name, in which no statement is read, apart. The first part follows the load step
by step; the last one is `forall_isProper_iff`. -/
theorem tables_of_load {h : Host Id} {i : Invocation} {config : Config} {catalog : Option Catalog}
    {sql : String} (hload : (i.load h).run = .ok (config, catalog, sql)) :
    let dialect := i.options.dialect.getD config.dialect.name
    (∃ found : Config, (found = {} ∨ found.validate = .ok ())
        ∧ config = Config.overridden found i.options)
      ∧ (Config.isSegment i.options.project = true → Config.isSegment i.options.dataset = true →
        config.tableDefaults.Fit)
      ∧ ∀ catalog now,
        (∀ sql tables, i.command.tables (.ofConfig config) catalog now ⟨sql, dialect⟩ = .ok tables →
          ∀ t ∈ tables, t.IsProper)
        ↔ config.tableDefaults.Fit ∨ Dialect.ofName? dialect = none := by
  obtain ⟨found, hvalid, rfl⟩ := config_of_load hload
  refine ⟨⟨found, hvalid, rfl⟩, fun hproject hdataset => ?_, fun _ _ => forall_isProper_iff⟩
  have hfound : Config.isSegment found.defaultProject = true
      ∧ Config.isSegment found.defaultDataset = true := by
    rcases hvalid with rfl | hvalid
    · exact ⟨rfl, rfl⟩
    · exact Config.isSegment_of_validate hvalid
  refine TableDefaults.fit_of_isSegment ?_ ?_
  · exact Config.isSegment_or hproject hfound.1
  · exact Config.isSegment_or hdataset hfound.2

/-- A world without files or input. -/
def emptyHost : Host Id where
  fileAt _ := .error .missing
  standardInput := .error .missing
  now := ""

/-- Asks for the sources of a statement, with overrides that are segments. -/
def sourcesInShop : Invocation where
  options := { project := some "acme", dataset := some "shop" }
  input := .inline "SELECT * FROM orders"
  command := .sources .text

theorem tables_of_load_sourcesInShop :
    let config : Config := { defaultProject := some "acme", defaultDataset := some "shop" }
    (sourcesInShop.load emptyHost).run = .ok (config, none, "SELECT * FROM orders")
      ∧ config.tableDefaults.Fit
      ∧ (sourcesInShop.command.tables (.ofConfig config) none ""
          ⟨"SELECT * FROM orders", "bigquery"⟩).map (fun tables => tables.map TableName.text)
        = .ok ["acme.shop.orders"] := by
  intro config
  have hload : (sourcesInShop.load emptyHost).run = .ok (config, none, "SELECT * FROM orders") :=
    rfl
  exact ⟨hload, (tables_of_load hload).2.1 (by decide +kernel) (by decide +kernel),
    by decide +kernel⟩

/-- A project of two segments is given on the command line, and a table gets a name of four, though
no file may hold such a project. -/
theorem output_of_dottedProject :
    let config : Config := { defaultProject := some "a.b", defaultDataset := some "c" }
    (run emptyHost
        ["sources", "--project", "a.b", "--dataset", "c", "--sql", "SELECT * FROM t"]).output
        = .ok "a.b.c.t\n"
      ∧ ((Command.sources .text).tables (.ofConfig config) none ""
          ⟨"SELECT * FROM t", "bigquery"⟩).map (fun tables => tables.map TableName.segments)
        = .ok [["a", "b", "c", "t"]]
      ∧ (∀ t : TableName, t.segments = ["a", "b", "c", "t"] → ¬t.IsProper)
      ∧ config.validate = .error (.badDefault "default_project") := by
  refine ⟨by decide +kernel, by decide +kernel, fun t ht hproper => ?_, by decide +kernel⟩
  have hshort := hproper.1
  rw [ht] at hshort
  exact absurd hshort (by decide)

end CommandLine

end QueryLineage
