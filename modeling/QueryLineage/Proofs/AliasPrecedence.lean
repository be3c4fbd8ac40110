import Mathlib.Data.List.TakeWhile
import QueryLineage.Analysis
import QueryLineage.Proofs.CteDefinitions
import QueryLineage.Proofs.LowerCase

/-!
# Which relation answers to a qualifier

One alias map serves a whole statement, so a qualifier is looked up among all that answer to it
anywhere: the relations given it as an alias, the last of them first, then the expression of that
name, then the sources of that short name (`answers`). `head?_answers` says that the map holds the
first of these. A relation of the main select is always among the answers to its own qualifier, but
it need not come first.
-/

namespace QueryLineage

/-- The qualifier of the columns of a relation: its alias, else the last part of its path. -/
def TableRef.qualifier? (ref : TableRef) : Option String := ref.aliasName.or ref.path.getLast?

/-- The tables in the main select's from clause, those of nested queries left out. -/
def Tree.mainTableRefs (root : Tree) : List TableRef :=
  match root.mainSelect?.bind (Tree.child? .fromClause) with
  | some clause => clause.scopeTableRefs
  | none => []

theorem Tree.mem_tableRefs_of_mem_mainTableRefs {root : Tree} {ref : TableRef}
    (h : ref ∈ root.mainTableRefs) : ref ∈ root.tableRefs := by
  unfold mainTableRefs at h
  split at h
  · rename_i clause hclause
    obtain ⟨select, hselect, hchild⟩ := Option.bind_eq_some_iff.mp hclause
    obtain ⟨t, ht, href⟩ := List.mem_filterMap.mp h
    have hinClause := mem_preorder_of_mem_scope ht
    have hinSelect : clause ∈ select.preorder := mem_preorder_iff.mpr
      (.inr ⟨clause, List.mem_of_find?_eq_some hchild, mem_preorder_iff.mpr (.inl rfl)⟩)
    have hinRoot := mem_preorder_of_mainSelect? hselect
    exact List.mem_filterMap.mpr
      ⟨t, mem_preorder_trans hinRoot (mem_preorder_trans hinSelect hinClause), href⟩
  · cases h

/-- A name that is written without dots, quotation marks and blanks around it. -/
structure PlainName (name : String) : Prop where
  ne_empty : name ≠ ""
  no_dot : '.' ∉ name.toList
  no_backtick : '\x60' ∉ name.toList
  no_quote : '\x22' ∉ name.toList
  trim_eq : Text.trim name = name

theorem PlainName.ne_quotes {name : String} (h : PlainName name) {c : Char}
    (hc : c ∈ name.toList) : c ≠ '\x60' ∧ c ≠ '\x22' :=
  ⟨fun e => h.no_backtick (e ▸ hc), fun e => h.no_quote (e ▸ hc)⟩

namespace Relations

def tablesOf (rs : Relations) : Relation → List TableName
  | .table name => [name]
  | .cte name => ((rs.ctes.bases? name.text).map (·.toList)).getD []

/-- The tables a path stands for: those the expression it names reads, else the one it resolves
to. -/
def tablesAt (rs : Relations) (path : List String) : List TableName :=
  match ResolvedCtes.keyOf? rs.ctes path with
  | some key => ((rs.ctes.find? key).map (·.bases.toList)).getD []
  | none => (rs.defaults.resolve path).toList

/-- All relations of a statement that answer to a name, the one that counts first: those given it
as an alias, the last one first, the expression of that name, the sources of that short name. -/
def answers (rs : Relations) (root : Tree) (name : String) : List Relation :=
  let key := Text.lower name
  (root.tableRefs.reverse.filter fun ref => ref.aliasName.map Text.lower = some key).filterMap
      (fun ref => rs.ctes.relationOfPath? rs.defaults ref.path)
    ++ (if rs.ctes.hasKey key then rs.ctes.relation? key else none).toList
    ++ (rs.sources.toList.filter fun t => Text.lower t.shortName = key).map .table

/-! ## The map holds the first answer -/

theorem find?_givenAliases (ctes : ResolvedCtes) (defaults : TableDefaults) (root : Tree)
    (key : String) :
    ((ctes.givenAliases defaults root).reverse.find? (·.1 = key)).map Prod.snd
      = ((root.tableRefs.reverse.filter fun ref =>
          ref.aliasName.map Text.lower = some key).filterMap fun ref =>
            ctes.relationOfPath? defaults ref.path).head? := by
  rw [ResolvedCtes.givenAliases, ← List.filterMap_reverse]
  induction root.tableRefs.reverse with
  | nil => rfl
  | cons ref rest ih =>
      cases halias : ref.aliasName with
      | none => simpa [halias] using ih
      | some aliasName =>
          by_cases hkey : Text.lower aliasName = key
          · cases hrelation : ctes.relationOfPath? defaults ref.path with
            | none => simpa [halias, hkey, hrelation] using ih
            | some relation => simp [halias, hkey, hrelation]
          · cases hrelation : ctes.relationOfPath? defaults ref.path with
            | none => simpa [halias, hkey, hrelation] using ih
            | some relation => simpa [halias, hkey, hrelation] using ih

theorem find?_ownAliases (ctes : ResolvedCtes) (key : String) :
    (ctes.ownAliases.find? (·.1 = key)).map Prod.snd
      = if ctes.hasKey key then ctes.relation? key else none := by
  have hkeys : ∀ keys : List String,
      ((keys.filterMap fun k => (ctes.relation? k).map (k, ·)).find? (·.1 = key)).map Prod.snd
        = if key ∈ keys then ctes.relation? key else none := by
    intro keys
    induction keys with
    | nil => rfl
    | cons k rest ih =>
        by_cases hk : k = key
        · subst hk
          -- A key that stands for nothing is passed over here and wherever it comes again.
          cases hrelation : ctes.relation? k with
          | none => simpa [hrelation] using ih
          | some relation => simp [hrelation]
        · cases hrelation : ctes.relation? k with
          | none => simpa [hrelation, hk, Ne.symm hk] using ih
          | some relation => simpa [hrelation, hk, Ne.symm hk] using ih
  rw [ResolvedCtes.ownAliases, hkeys]
  simp only [Dict.mem_keys]

theorem find?_shortAliases (sources : TableName.Set) (key : String) :
    ((shortAliases sources).find? (·.1 = key)).map Prod.snd
      = ((sources.toList.filter fun t => Text.lower t.shortName = key).map
          Relation.table).head? := by
  rw [shortAliases, List.find?_map, List.head?_map, List.head?_filter, Option.map_map]
  rfl

/-- **Precedence.** What the alias map of a statement holds under a name is the first of all
relations that answer to it. -/
theorem find?_aliases (defaults : TableDefaults) (root : Tree) (name : String) :
    (ofTree defaults root).aliases.relation? name
      = ((ofTree defaults root).answers root name).head? := by
  rw [AliasMap.relation?, answers, List.head?_append, List.head?_append, Option.head?_toList,
    ← find?_givenAliases, ← find?_ownAliases, ← find?_shortAliases, Option.or_assoc,
    ← Option.map_or, ← List.find?_append, ofTree, AliasMap.ofTree, Dict.find?_foldl_putNew,
    Dict.find?_ofList]

/-! ## Reading a qualified column -/

theorem columnParts_of_plain {qualifier column : String} (hq : PlainName qualifier)
    (hc : PlainName column) : columnParts (qualifier ++ "." ++ column) = [qualifier, column] := by
  have hkept : (qualifier ++ "." ++ column).toList.filter (fun c => c ≠ '\x60' ∧ c ≠ '\x22')
      = (qualifier ++ "." ++ column).toList := by
    rw [List.filter_eq_self]
    intro c hmem
    simp only [String.toList_append, List.mem_append] at hmem
    rcases hmem with (hmem | hmem) | hmem
    · simpa using hq.ne_quotes hmem
    · obtain rfl : c = '.' := by simpa using hmem
      decide
    · simpa using hc.ne_quotes hmem
  rw [columnParts, hkept, String.ofList_toList, Text.split_append hq.no_dot rfl,
    Text.split_of_not_mem hc.no_dot]
  simp [hq.trim_eq, hc.trim_eq]

theorem baseTables_of_plain {rs : Relations} {qualifier column : String}
    (hq : PlainName qualifier) (hc : PlainName column) {relation : Relation}
    (h : rs.aliases.relation? qualifier = some relation) :
    rs.baseTables (qualifier ++ "." ++ column) = rs.tablesOf relation := by
  have howner : rs.owner? (qualifier ++ "." ++ column) = some relation := by
    simp [owner?, columnParts_of_plain hq hc, hq.ne_empty, hc.ne_empty, h]
  rw [baseTables, howner]
  cases relation <;> rfl

/-! ## The answer a relation gives itself -/

theorem not_isBlankText_of_ofSegments {name : String} {table : TableName}
    (h : TableName.ofSegments [name] = .ok table) : Text.isBlankText name = false := by
  rw [Bool.eq_false_iff]
  intro hblank
  have hchars : ∀ c ∈ name.toList, Text.isBlank c = true := List.all_eq_true.mp hblank
  have hdot : '.' ∉ name.toList := fun hmem => absurd (hchars '.' hmem) (by decide)
  have hunquote : TableName.unquote name = "" := by
    have hstrip : Text.stripBoth Text.isBlank name.toList = [] := by
      rw [Text.stripBoth, List.dropWhile_eq_nil_iff.mpr hchars]
      rfl
    rw [TableName.unquote, TableName.unquoteChars, hstrip]
  have hpieces : TableName.pieces [name] = [""] := by
    simp [TableName.pieces, Text.split_of_not_mem hdot, hunquote]
  obtain ⟨-, hnot⟩ := TableName.segments_of_ofSegments h
  exact absurd (hnot "" (by simp [hpieces])) (by decide)

/-- An expression whose key is not blank has a name, and its key is that of the name. -/
theorem exists_name_of_find? {defaults : TableDefaults} {root : Tree} {key : String}
    {cte : ResolvedCte} (hblank : Text.isBlankText key = false)
    (h : (ResolvedCtes.ofTree defaults root).find? key = some cte) :
    ∃ name, cte.name = some name ∧ Text.lower name.text = key := by
  rw [ResolvedCtes.find?_ofTree, Option.map_eq_some_iff] at h
  obtain ⟨body, hbody, rfl⟩ := h
  obtain ⟨-, hdefined⟩ := ResolvedCtes.find?_definitions_eq_some hbody
  obtain ⟨text, hlabel, hkey⟩ := Tree.definedKey?_eq_some_iff.mp hdefined
  have htext : Text.isBlankText text = false := by
    rw [← Text.isBlankText_lower, hkey, hblank]
  refine ⟨⟨text, htext⟩, ?_, hkey⟩
  simp [ResolvedCtes.definedName?, hlabel, CteName.ofText?, htext]

/-- A name of an expression stands for a relation with the tables that the expression reads. Where
this is a single table the relation is the table, else the expression itself, whose name leads back
to the same entry. -/
theorem relation?_of_hasKey {defaults : TableDefaults} {root : Tree} {name : String}
    (hblank : Text.isBlankText name = false)
    (hkey : (ofTree defaults root).ctes.hasKey (Text.lower name) = true) :
    ∃ relation, (ofTree defaults root).ctes.relation? (Text.lower name) = some relation
      ∧ (ofTree defaults root).tablesOf relation = (ofTree defaults root).tablesAt [name] := by
  generalize hrs : ofTree defaults root = rs at hkey ⊢
  have hctes : rs.ctes = ResolvedCtes.ofTree defaults root := by rw [← hrs]; rfl
  obtain ⟨cte, hcte⟩ := Dict.hasKey_iff_find?.mp hkey
  have hat : rs.tablesAt [name] = cte.bases.toList := by
    simp [tablesAt, ResolvedCtes.keyOf?, hkey, hcte]
  have hbases : rs.ctes.bases? (Text.lower name) = some cte.bases := by
    rw [ResolvedCtes.bases?, ResolvedCtes.named?, Text.lower_lower, hcte, Option.map_some]
  rw [hat, ResolvedCtes.relation?]
  split
  · rename_i table hsingle
    refine ⟨.table table, rfl, ?_⟩
    rw [ResolvedCtes.singleBase?, hbases] at hsingle
    split at hsingle
    · rename_i only honly
      obtain rfl := Option.some.inj hsingle
      exact (Option.some.inj honly).symm
    · cases hsingle
  · obtain ⟨spelt, hspelt, hspeltKey⟩ :=
      exists_name_of_find? ((Text.isBlankText_lower name).trans hblank) (hctes ▸ hcte)
    refine ⟨.cte spelt, ?_, ?_⟩
    · rw [ResolvedCtes.spelling?, ResolvedCtes.named?, Text.lower_lower, hcte, Option.bind_some,
        hspelt, Option.map_some]
    · simp [tablesOf, ResolvedCtes.bases?, ResolvedCtes.named?, hspeltKey, hcte]

/-- A path that is a table name stands for a relation with the tables of the path: for the completed
name if no expression has it, else as in `relation?_of_hasKey`. -/
theorem relationOfPath?_of_ofSegments (defaults : TableDefaults) (root : Tree)
    {path : List String} {table : TableName} (hvalid : TableName.ofSegments path = .ok table) :
    ∃ relation, (ofTree defaults root).ctes.relationOfPath? defaults path = some relation
      ∧ (ofTree defaults root).tablesOf relation = (ofTree defaults root).tablesAt path := by
  rw [ResolvedCtes.relationOfPath?]
  cases hkey : ResolvedCtes.keyOf? (ofTree defaults root).ctes path with
  | none =>
      have hresolve : defaults.resolve path
          = some (table.qualify defaults.project defaults.dataset) := by
        rw [TableDefaults.resolve, hvalid]
      refine ⟨.table (table.qualify defaults.project defaults.dataset), ?_, ?_⟩
      · simp [hresolve]
      · rw [tablesAt, hkey]
        exact (congrArg Option.toList hresolve).symm
  | some key =>
      obtain ⟨name, rfl, rfl, hhas⟩ := ResolvedCtes.keyOf?_eq_some_iff.mp hkey
      exact relation?_of_hasKey (not_isBlankText_of_ofSegments hvalid) hhas

theorem unquote_of_plain {name : String} (h : PlainName name) : TableName.unquote name = name := by
  have hstrip : Text.stripBoth Text.isBlank name.toList = name.toList := by
    have htrim := congrArg String.toList h.trim_eq
    rwa [Text.trim, String.toList_ofList] at htrim
  have hchars : TableName.unquoteChars name.toList = name.toList := by
    rw [TableName.unquoteChars, hstrip]
    split
    · rename_i first rest hcons
      obtain ⟨hbacktick, hquote⟩ := h.ne_quotes (hcons ▸ List.mem_cons_self : first ∈ _)
      simp [hcons, hbacktick, hquote]
    · rename_i hnil
      exact hnil.symm
  rw [TableName.unquote, hchars, String.ofList_toList]

/-- Where the last part of a path is a plain name, it is the short name of the table. -/
theorem shortName_of_ofSegments {path : List String} {table : TableName} {name : String}
    (hvalid : TableName.ofSegments path = .ok table) (hname : PlainName name)
    (hlast : path.getLast? = some name) : table.shortName = name := by
  obtain ⟨outer, rfl⟩ := List.getLast?_eq_some_iff.mp hlast
  have hpieces : TableName.pieces (outer ++ [name]) = TableName.pieces outer ++ [name] := by
    simp [TableName.pieces, Text.split_of_not_mem hname.no_dot, unquote_of_plain hname]
  have hsegments := (TableName.segments_of_ofSegments hvalid).1.trans hpieces
  simp [TableName.shortName, hsegments]

/-- A relation anywhere in a statement is among the answers to its own qualifier. There is a case
for each of the three parts of the answers: the relation has an alias, or it names an expression, or
its qualifier is the short name of a source. -/
theorem exists_mem_answers (defaults : TableDefaults) {root : Tree} {ref : TableRef}
    (href : ref ∈ root.tableRefs) {table : TableName}
    (hvalid : TableName.ofSegments ref.path = .ok table) {qualifier : String}
    (hqualifier : ref.qualifier? = some qualifier) (hplain : PlainName qualifier) :
    ∃ own ∈ (ofTree defaults root).answers root qualifier,
      (ofTree defaults root).tablesOf own = (ofTree defaults root).tablesAt ref.path := by
  obtain ⟨own, hown, htables⟩ := relationOfPath?_of_ofSegments defaults root hvalid
  refine ⟨own, ?_, htables⟩
  simp only [answers, List.mem_append]
  cases halias : ref.aliasName with
  | some aliasName =>
      have hname : aliasName = qualifier := by simpa [TableRef.qualifier?, halias] using hqualifier
      refine .inl (.inl (List.mem_filterMap.mpr ⟨ref, List.mem_filter.mpr ⟨?_, ?_⟩, hown⟩))
      · exact List.mem_reverse.mpr href
      · simp [halias, hname]
  | none =>
      have hlast : ref.path.getLast? = some qualifier := by
        simpa [TableRef.qualifier?, halias] using hqualifier
      cases hkey : ResolvedCtes.keyOf? (ofTree defaults root).ctes ref.path with
      | some key =>
          obtain ⟨name, hpath, rfl, hhas⟩ := ResolvedCtes.keyOf?_eq_some_iff.mp hkey
          obtain rfl : name = qualifier := by simpa [hpath] using hlast
          rw [ResolvedCtes.relationOfPath?, hkey] at hown
          exact .inl (.inr (by simpa [hhas] using hown))
      | none =>
          rw [ResolvedCtes.relationOfPath?, hkey] at hown
          obtain ⟨resolved, hresolve, rfl⟩ := Option.map_eq_some_iff.mp hown
          refine .inr (List.mem_map.mpr ⟨resolved, List.mem_filter.mpr ⟨?_, ?_⟩, rfl⟩)
          · exact ResolvedCtes.mem_referencedTables.mpr ⟨ref, href, hkey, hresolve⟩
          · have hshort : resolved.shortName = qualifier := by
              rw [TableDefaults.resolve, hvalid] at hresolve
              obtain rfl := Option.some.inj hresolve
              rw [TableName.shortName_qualify, shortName_of_ofSegments hvalid hplain hlast]
            simp [hshort]

/-- **Columns of a relation of the main select.** A column with the qualifier of such a relation is
attributed to the tables of the first relation that answers to the qualifier anywhere in the
statement. The relation it is written after is among the answers; so where all of them read the
same tables, whatever scopes they stand in, the column is attributed to its own. -/
theorem baseTables_of_mainTableRef (defaults : TableDefaults) (root : Tree) {ref : TableRef}
    (href : ref ∈ root.mainTableRefs) {table : TableName}
    (hvalid : TableName.ofSegments ref.path = .ok table) {qualifier written column : String}
    (hqualifier : ref.qualifier? = some qualifier) (hplain : PlainName qualifier)
    (hcase : Text.lower written = Text.lower qualifier) (hwritten : PlainName written)
    (hcolumn : PlainName column) :
    let rs := ofTree defaults root
    (∃ own ∈ rs.answers root qualifier, rs.tablesOf own = rs.tablesAt ref.path)
      ∧ (∃ first, (rs.answers root qualifier).head? = some first
          ∧ rs.baseTables (written ++ "." ++ column) = rs.tablesOf first)
      ∧ ((∀ other ∈ rs.answers root qualifier, rs.tablesOf other = rs.tablesAt ref.path) →
          rs.baseTables (written ++ "." ++ column) = rs.tablesAt ref.path) := by
  intro rs
  obtain ⟨own, hmem, hown⟩ := exists_mem_answers defaults
    (Tree.mem_tableRefs_of_mem_mainTableRefs href) hvalid hqualifier hplain
  obtain ⟨first, hfirst⟩ : ∃ first, (rs.answers root qualifier).head? = some first :=
    Option.isSome_iff_exists.mp (by simpa using List.ne_nil_of_mem hmem)
  have hmap : rs.aliases.relation? written = some first := by
    rw [AliasMap.relation?, hcase]
    exact (find?_aliases defaults root qualifier).trans hfirst
  have hbase := baseTables_of_plain hwritten hcolumn hmap
  refine ⟨⟨own, hmem, hown⟩, ⟨first, hfirst, hbase⟩, fun hsame => ?_⟩
  rw [hbase]
  exact hsame first (List.mem_of_head? hfirst)

/-- `SELECT o.x FROM orders o`. -/
def aliasedOrders : Tree :=
  ⟨.query, "SELECT o.x FROM orders o",
    [⟨.select, "SELECT o.x FROM orders o",
      [⟨.projection none (some "x"), "o.x", [.leaf (.column ["o", "x"]) "o.x"]⟩,
        ⟨.fromClause, "orders o", [.leaf (.table ⟨["orders"], some "o"⟩) "orders o"]⟩]⟩]⟩

theorem baseTables_of_aliasedOrders :
    (ofTree {} aliasedOrders).baseTables ("O" ++ "." ++ "x")
      = (ofTree {} aliasedOrders).tablesAt ["orders"] := by
  have hplain : PlainName "o" := ⟨by decide, by decide, by decide, by decide, by decide +kernel⟩
  have hwritten : PlainName "O" := ⟨by decide, by decide, by decide, by decide, by decide +kernel⟩
  have hcolumn : PlainName "x" := ⟨by decide, by decide, by decide, by decide, by decide +kernel⟩
  have hvalid : TableName.ofSegments ["orders"] = .ok ⟨["orders"], by decide, by decide⟩ := by
    decide +kernel
  have href : (⟨["orders"], some "o"⟩ : TableRef) ∈ aliasedOrders.mainTableRefs := by
    decide +kernel
  have hsame := (baseTables_of_mainTableRef {} aliasedOrders href hvalid rfl hplain
    (by decide +kernel) hwritten hcolumn).2.2
  exact hsame (by decide +kernel)

/-- An alias that a nested query gives to another table takes the columns of the outer one with
it. -/
theorem baseTables_of_reusedAlias :
    (({ sql := "SELECT o.x FROM orders o WHERE o.id IN (SELECT o.id FROM returns o)" } :
        LineageRequest).tree.map fun root =>
      (root.1.mainTableRefs, ((ofTree {} root.1).tablesAt ["orders"]).map TableName.text,
        ((ofTree {} root.1).baseTables "o.x").map TableName.text)).toOption
      = some ([⟨["orders"], some "o"⟩], ["orders"], ["returns"]) := by
  decide +kernel

end Relations

end QueryLineage
