import Mathlib.Data.List.Induction
import QueryLineage.Proofs.CatalogNames

/-!
# Tables put into a catalog

A table is put under exactly the names of its address, while a look-up takes any spelling and is
settled level by level: the exact name first, then the first one that agrees up to case. So a
look-up after a table is put in gives what it gave before, or is led to the new branch instead of
what the new spelling led to (`Dict.findIgnoringCase?_put_cases`). Going down the three levels with
this, `Catalog.get?_insert_cases` finds that another table can only get lost, and only where the
address puts a new spelling of a project, or of a dataset in its project, beside an old one
(`Shadows`). That makes the catalog invalid, so `Catalog.get?_insertAll` loses nothing along a
history that ends in a valid one.
-/

namespace QueryLineage

/-! ## One level -/

namespace SortedBy

variable {α : Type} {key : α → String} {p : α → Bool}

theorem find?_insertInto_of_not {a : α} {l : List α} (hp : ∀ b, key b = key a → p b = false) :
    (insertInto key a l).find? p = l.find? p := by
  induction l with
  | nil => simp [insertInto, hp a rfl]
  | cons b rest ih =>
      simp only [insertInto]
      split
      · simp [hp a rfl]
      · split
        · rename_i hab
          simp [hp a rfl, hp b hab.symm]
        · simp [List.find?_cons, ih]

theorem find?_insertInto_cases {a : α} {l : List α} (hl : ∀ b ∈ l, key b ≠ key a) :
    (insertInto key a l).find? p = some a ∨ (insertInto key a l).find? p = l.find? p := by
  induction l with
  | nil => cases hpa : p a <;> simp [insertInto, hpa]
  | cons b rest ih =>
      simp only [insertInto]
      split
      · cases hpa : p a <;> simp [hpa]
      · rw [if_neg fun hab => hl b List.mem_cons_self hab.symm]
        cases hpb : p b
        · simpa [hpb] using ih fun x hx => hl x (List.mem_cons_of_mem b hx)
        · simp [hpb]

end SortedBy

namespace Dict

variable {α : Type} {d : Dict α} {j k : String} {v : α}

theorem findIgnoringCase?_of_find? (h : d.find? k = some v) : d.findIgnoringCase? k = some v := by
  simp [findIgnoringCase?, h]

theorem findIgnoringCase?_put_self (d : Dict α) (k : String) (v : α) :
    (d.put k v).findIgnoringCase? k = some v :=
  findIgnoringCase?_of_find? (by simp [find?_put])

/-- Which entry a name leads to in spite of its case is said by the name in small letters. -/
theorem findIgnoringCase?_of_find?_eq_none (h : d.find? j = none)
    (hlower : Text.lowerAscii j = Text.lowerAscii k) :
    d.findIgnoringCase? j = (d.toList.find? (Text.eqIgnoringCase ·.1 k)).map Prod.snd := by
  have hsame : (fun e : String × α => Text.eqIgnoringCase e.1 j)
      = fun e => Text.eqIgnoringCase e.1 k := by
    funext e
    rw [Text.eqIgnoringCase, Text.eqIgnoringCase, hlower]
  simp only [findIgnoringCase?, h, hsame]

theorem findIgnoringCase?_put_of_ne (hlower : Text.lowerAscii j ≠ Text.lowerAscii k) :
    (d.put k v).findIgnoringCase? j = d.findIgnoringCase? j := by
  have hjk : j ≠ k := fun h => hlower (congrArg Text.lowerAscii h)
  have hfirst : (d.put k v).toList.find? (Text.eqIgnoringCase ·.1 j)
      = d.toList.find? (Text.eqIgnoringCase ·.1 j) := by
    refine SortedBy.find?_insertInto_of_not fun e he => Bool.eq_false_iff.mpr fun hsame => ?_
    exact hlower (he ▸ Text.eqIgnoringCase_iff.mp hsame).symm
  simp only [findIgnoringCase?, find?_put, if_neg hjk, hfirst]

/-- Putting something in the place of an old value changes what leads to it, and nothing else: the
list is the same up to the value at that place (`toList_put_of_find?`). -/
theorem findIgnoringCase?_put_of_find? {w : α} (h : d.find? k = some w) :
    (d.put k v).findIgnoringCase? j = d.findIgnoringCase? j
      ∨ (d.put k v).findIgnoringCase? j = some v ∧ d.findIgnoringCase? j = some w := by
  by_cases hjk : j = k
  · subst hjk
    exact .inr ⟨findIgnoringCase?_put_self d j v, findIgnoringCase?_of_find? h⟩
  · simp only [findIgnoringCase?, find?_put, if_neg hjk]
    cases d.find? j with
    | some _ => exact .inl rfl
    | none =>
        obtain ⟨before, after, hold, hnew⟩ := toList_put_of_find? h v
        simp only [hold, hnew, List.find?_append, List.find?_cons]
        cases hbefore : before.find? (Text.eqIgnoringCase ·.1 j) with
        | some _ => exact .inl rfl
        | none =>
            cases hsame : Text.eqIgnoringCase k j with
            | true => exact .inr ⟨rfl, rfl⟩
            | false => exact .inl rfl

/-- **Putting a value under a name.** Any name leads to what it led to before, or to the new value
instead of what exactly the new name led to. -/
theorem findIgnoringCase?_put_cases (d : Dict α) (j k : String) (v : α) :
    (d.put k v).findIgnoringCase? j = d.findIgnoringCase? j
      ∨ Text.lowerAscii j = Text.lowerAscii k ∧ (d.put k v).findIgnoringCase? j = some v
        ∧ d.findIgnoringCase? j = d.findIgnoringCase? k := by
  by_cases hlower : Text.lowerAscii j = Text.lowerAscii k
  case neg => exact .inl (findIgnoringCase?_put_of_ne hlower)
  case pos =>
    cases hk : d.find? k with
    | some w =>
        refine (findIgnoringCase?_put_of_find? hk).imp_right fun h => ⟨hlower, h.1, ?_⟩
        rw [h.2, findIgnoringCase?_of_find? hk]
    | none =>
        cases hj : d.find? j with
        | some w =>
            have hjk : j ≠ k := by
              rintro rfl
              rw [hk] at hj
              cases hj
            refine .inl ?_
            rw [findIgnoringCase?_of_find? hj]
            exact findIgnoringCase?_of_find? (by rw [find?_put, if_neg hjk, hj])
        | none =>
            have hbefore : d.findIgnoringCase? j = d.findIgnoringCase? k := by
              rw [findIgnoringCase?_of_find?_eq_none hj hlower,
                findIgnoringCase?_of_find?_eq_none hk rfl]
            by_cases hjk : j = k
            · subst hjk
              exact .inr ⟨rfl, findIgnoringCase?_put_self d j v, rfl⟩
            · have hfirst : (d.put k v).findIgnoringCase? j
                  = ((d.put k v).toList.find? (Text.eqIgnoringCase ·.1 k)).map Prod.snd :=
                findIgnoringCase?_of_find?_eq_none (by rw [find?_put, if_neg hjk, hj]) hlower
              have hnew : ∀ e ∈ d.toList, e.1 ≠ k := by
                rintro ⟨name, w⟩ he rfl
                rw [find?_eq_some_iff.mpr he] at hk
                cases hk
              rcases SortedBy.find?_insertInto_cases (a := (k, v))
                (p := fun e => Text.eqIgnoringCase e.1 k) hnew with hfound | hfound
              · refine .inr ⟨hlower, hfirst.trans ?_, hbefore⟩
                exact congrArg (Option.map Prod.snd) hfound
              · refine .inl (hfirst.trans ?_)
                rw [findIgnoringCase?_of_find?_eq_none hj hlower]
                exact congrArg (Option.map Prod.snd) hfound

theorem keys_put_sublist (d : Dict α) (k : String) (v : α) :
    d.keys.Sublist (d.put k v).keys := by
  show (d.toList.map Prod.fst).Sublist ((SortedBy.insertInto Prod.fst (k, v) d.toList).map Prod.fst)
  induction d.toList with
  | nil => exact List.nil_sublist _
  | cons e rest ih =>
      simp only [SortedBy.insertInto]
      split
      · exact List.sublist_cons_self _ _
      · split
        · rename_i hke
          simp [hke]
        · exact ih.cons_cons _

theorem mem_put_self (d : Dict α) (k : String) (v : α) : (k, v) ∈ (d.put k v).toList :=
  SortedBy.mem_insert.mpr (.inl rfl)

theorem mem_put_of_ne {e : String × α} (he : e ∈ d.toList) (hne : e.1 ≠ k) :
    e ∈ (d.put k v).toList :=
  SortedBy.mem_insert.mpr (.inr ⟨he, hne⟩)

/-- Where names are told apart after one was put in, no other spelling of it was there before: it
would still be there, and be the same name up to case. -/
theorem find?_ne_none_of_nodup_put (hd : ((d.put k v).keys.map Text.lowerAscii).Nodup)
    (hfound : d.findIgnoringCase? k ≠ none) : d.find? k ≠ none := by
  intro hnone
  obtain ⟨w, hw⟩ := Option.ne_none_iff_exists'.mp hfound
  obtain ⟨name, hname, hlower⟩ := exists_of_findIgnoringCase? hw
  have hne : name ≠ k := by
    rintro rfl
    rw [find?_eq_some_iff.mpr hname] at hnone
    cases hnone
  have hsame := eq_of_lower_eq hd (mem_put_of_ne hname hne) (mem_put_self d k v) hlower
  exact hne (Prod.mk.inj hsame).1

end Dict

namespace Catalog

variable {c : Catalog} {k k' : TableKey} {m : TableMetadata}

instance (k k' : TableKey) : Decidable (SameKey k k') :=
  decidable_of_iff
    (Text.lowerAscii k.project = Text.lowerAscii k'.project
      ∧ Text.lowerAscii k.dataset = Text.lowerAscii k'.dataset
      ∧ Text.lowerAscii k.table = Text.lowerAscii k'.table)
    ⟨fun h => ⟨h.1, h.2.1, h.2.2⟩, fun h => ⟨h.project, h.dataset, h.table⟩⟩

/-! ## Three levels -/

/-- The datasets of exactly this project, none if it is new. -/
def datasetsAt (c : Catalog) (k : TableKey) : Dict (Dict TableMetadata) :=
  (c.projects.find? k.project).getD ∅

/-- The tables of exactly this dataset, none if it is new. -/
def tablesAt (c : Catalog) (k : TableKey) : Dict TableMetadata :=
  ((c.datasetsAt k).find? k.dataset).getD ∅

theorem insert_eq (c : Catalog) (k : TableKey) (m : TableMetadata) :
    c.insert k m
      = ⟨c.projects.put k.project
          ((c.datasetsAt k).put k.dataset ((c.tablesAt k).put k.table m))⟩ := rfl

/-- The table that `k'` leads to goes by the spelling of `k` for its project, or for its project and
its dataset, and nothing is stored under exactly this spelling: it was found under another one. -/
structure Shadows (c : Catalog) (k k' : TableKey) : Prop where
  found : c.get? k' ≠ none
  other : ¬SameKey k' k
  project : k'.project = k.project
  branch : c.projects.find? k.project = none
    ∨ k'.dataset = k.dataset ∧ (c.datasetsAt k).find? k.dataset = none

/-- What a look-up finds below a project, if there is one. -/
def below (datasets : Option (Dict (Dict TableMetadata))) (dataset table : String) :
    Option TableMetadata :=
  datasets.bind fun ds => (ds.findIgnoringCase? dataset).bind (·.findIgnoringCase? table)

theorem get?_eq (c : Catalog) (k : TableKey) :
    c.get? k = below (c.projects.findIgnoringCase? k.project) k.dataset k.table := rfl

theorem get?_insert_self (c : Catalog) (k : TableKey) (m : TableMetadata) :
    (c.insert k m).get? k = some m := by
  simp only [get?_eq, below, insert_eq, Dict.findIgnoringCase?_put_self, Option.bind_some]

theorem below_single {dataset table dataset' table' : String} (m : TableMetadata)
    (hother : ¬(Text.lowerAscii dataset' = Text.lowerAscii dataset
      ∧ Text.lowerAscii table' = Text.lowerAscii table)) :
    below (some ((∅ : Dict (Dict TableMetadata)).put dataset
      ((∅ : Dict TableMetadata).put table m))) dataset' table' = none := by
  rw [below, Option.bind_some]
  rcases Dict.findIgnoringCase?_put_cases ∅ dataset' dataset
    ((∅ : Dict TableMetadata).put table m) with hdataset | ⟨hdataset, hnew, -⟩
  · rw [hdataset]
    rfl
  · rw [hnew, Option.bind_some]
    exact Dict.findIgnoringCase?_put_of_ne fun htable => hother ⟨hdataset, htable⟩

/-- A table that is not found any more was found before under a spelling that is new with `k`. -/
theorem eq_or_shadows {k'' : TableKey} {now : Option TableMetadata} (hnow : now = none)
    (hbefore : c.get? k' = c.get? k'') (hother : ¬SameKey k'' k)
    (hproject : k''.project = k.project)
    (hbranch : c.projects.find? k.project = none
      ∨ k''.dataset = k.dataset ∧ (c.datasetsAt k).find? k.dataset = none) :
    now = c.get? k' ∨ now = none ∧ ∃ k'', c.Shadows k k'' ∧ c.get? k' = c.get? k'' := by
  by_cases hfound : c.get? k'' = none
  · exact .inl (by rw [hnow, hbefore, hfound])
  · exact .inr ⟨hnow, k'', ⟨hfound, hother, hproject, hbranch⟩, hbefore⟩

/-- Another table is found as before, or it was found under a spelling that is new with `k` and is
lost. Level by level the look-up goes where it went before, or down the branch of `k`; if that
branch is new, it is empty but for the new table. -/
theorem get?_insert_cases (m : TableMetadata) (hother : ¬SameKey k' k) :
    (c.insert k m).get? k' = c.get? k'
      ∨ (c.insert k m).get? k' = none
        ∧ ∃ k'', c.Shadows k k'' ∧ c.get? k' = c.get? k'' := by
  rw [get?_eq (c.insert k m), insert_eq]
  rcases Dict.findIgnoringCase?_put_cases c.projects k'.project k.project
    ((c.datasetsAt k).put k.dataset ((c.tablesAt k).put k.table m)) with
    hproject | ⟨hproject, hnew, hold⟩
  · exact .inl (by rw [hproject, get?_eq c])
  -- The look-up now goes down the branch of `k`, and went where the project of `k` led to.
  have hbefore : c.get? k' = c.get? ⟨k.project, k'.dataset, k'.table⟩ := by
    rw [get?_eq, get?_eq, hold]
  simp only [hnew]
  cases hp : c.projects.find? k.project with
  | none =>
      have hempty : c.datasetsAt k = ∅ := by rw [datasetsAt, hp]; rfl
      have hempty' : c.tablesAt k = ∅ := by rw [tablesAt, hempty]; rfl
      rw [hempty, hempty']
      exact eq_or_shadows (below_single m fun h => hother ⟨hproject, h.1, h.2⟩) hbefore
        (fun h => hother ⟨hproject, h.dataset, h.table⟩) rfl (.inl hp)
  | some datasets =>
      have hat : c.datasetsAt k = datasets := by rw [datasetsAt, hp]; rfl
      have hfound : c.projects.findIgnoringCase? k.project = some datasets :=
        Dict.findIgnoringCase?_of_find? hp
      rw [hat, below, Option.bind_some]
      rcases Dict.findIgnoringCase?_put_cases datasets k'.dataset k.dataset
        ((c.tablesAt k).put k.table m) with hdataset | ⟨hdataset, hnew', hold'⟩
      · exact .inl (by rw [hdataset, hbefore, get?_eq, hfound]; rfl)
      · have htable : Text.lowerAscii k'.table ≠ Text.lowerAscii k.table :=
          fun htable => hother ⟨hproject, hdataset, htable⟩
        rw [hnew', Option.bind_some, Dict.findIgnoringCase?_put_of_ne htable]
        have hbefore' : c.get? k' = c.get? ⟨k.project, k.dataset, k'.table⟩ := by
          rw [hbefore, get?_eq, get?_eq]
          simp only [hfound, below, Option.bind_some, hold']
        cases hd : datasets.find? k.dataset with
        | none =>
            have hempty : c.tablesAt k = ∅ := by rw [tablesAt, hat, hd]; rfl
            refine eq_or_shadows ?_ hbefore' (fun h => htable h.table) rfl
              (.inr ⟨rfl, hat ▸ hd⟩)
            rw [hempty]
            rfl
        | some tables =>
            have hat' : c.tablesAt k = tables := by rw [tablesAt, hat, hd]; rfl
            refine .inl ?_
            rw [hbefore', hat', get?_eq]
            simp only [hfound, below, Option.bind_some, Dict.findIgnoringCase?_of_find? hd]

/-- What is shadowed gets lost: below the new spelling there is nothing but the new table. The
spelling may be new at the first level or at the second, with a case for each. -/
theorem get?_insert_of_shadows (h : c.Shadows k k') : (c.insert k m).get? k' = none := by
  have hbelow : ¬(Text.lowerAscii k'.dataset = Text.lowerAscii k.dataset
      ∧ Text.lowerAscii k'.table = Text.lowerAscii k.table) :=
    fun hsame => h.other ⟨congrArg _ h.project, hsame.1, hsame.2⟩
  rw [get?_eq, insert_eq, h.project]
  simp only [Dict.findIgnoringCase?_put_self]
  rcases h.branch with hp | ⟨hdataset, hd⟩
  · have hempty : c.datasetsAt k = ∅ := by rw [datasetsAt, hp]; rfl
    have hempty' : c.tablesAt k = ∅ := by rw [tablesAt, hempty]; rfl
    rw [hempty, hempty']
    exact below_single m hbelow
  · have hempty : c.tablesAt k = ∅ := by rw [tablesAt, hd]; rfl
    rw [hempty, hdataset, below, Option.bind_some, Dict.findIgnoringCase?_put_self,
      Option.bind_some]
    exact Dict.findIgnoringCase?_put_of_ne fun htable => hbelow ⟨congrArg _ hdataset, htable⟩

/-! ## Catalogs that stay valid -/

/-- A catalog that is valid once a table is in was valid before: on each level the old names are
some of the new ones (`Dict.keys_put_sublist`), and fewer names are no harder to tell apart. -/
theorem wellNamed_of_insert (h : (c.insert k m).WellNamed) : c.WellNamed := by
  have husable : ∀ {names names' : List String}, names.Sublist names' → UsableNames names' →
      UsableNames names := fun hsub h' =>
    ⟨fun name hname => h'.not_blank name (hsub.subset hname),
      fun name hname => h'.dotFree name (hsub.subset hname),
      h'.nodup_lower.sublist (hsub.map _)⟩
  have hentry := Dict.mem_put_self c.projects k.project
    ((c.datasetsAt k).put k.dataset ((c.tablesAt k).put k.table m))
  have hbranch := h.datasets _ hentry
  have hbranch' := h.tables _ hentry
  constructor
  case projects => exact husable (Dict.keys_put_sublist _ _ _) h.projects
  case datasets =>
    intro p hp
    by_cases hname : p.1 = k.project
    · have hat : c.datasetsAt k = p.2 := by
        rw [datasetsAt, ← hname, Dict.find?_eq_some_iff.mpr hp]
        rfl
      exact husable (hat ▸ Dict.keys_put_sublist _ _ _) hbranch
    · exact h.datasets p (Dict.mem_put_of_ne hp hname)
  case tables =>
    intro p hp d hd
    by_cases hname : p.1 = k.project
    · have hat : c.datasetsAt k = p.2 := by
        rw [datasetsAt, ← hname, Dict.find?_eq_some_iff.mpr hp]
        rfl
      by_cases hname' : d.1 = k.dataset
      · have hat' : c.tablesAt k = d.2 := by
          rw [tablesAt, hat, ← hname', Dict.find?_eq_some_iff.mpr hd]
          rfl
        have hnew := hbranch' _ (Dict.mem_put_self _ k.dataset _)
        exact husable (hat' ▸ Dict.keys_put_sublist _ _ _) hnew
      · exact hbranch' d (Dict.mem_put_of_ne (hat ▸ hd) hname')
    · exact h.tables p (Dict.mem_put_of_ne hp hname) d hd

/-- An address that shadows a table makes the catalog invalid: the table was found under another
spelling of a name that is new with the address, and both spellings are there in the end. -/
theorem not_shadows_of_wellNamed (h : (c.insert k m).WellNamed) : ¬c.Shadows k k' := by
  intro hshadows
  have hfound := hshadows.found
  rw [get?_eq, hshadows.project] at hfound
  have hproject : c.projects.findIgnoringCase? k.project ≠ none := fun hnone => by
    rw [hnone] at hfound
    exact hfound rfl
  obtain ⟨datasets, hp⟩ := Option.ne_none_iff_exists'.mp
    (Dict.find?_ne_none_of_nodup_put h.projects.nodup_lower hproject)
  have hat : c.datasetsAt k = datasets := by rw [datasetsAt, hp]; rfl
  rcases hshadows.branch with hnone | ⟨hdataset, hnone⟩
  · rw [hnone] at hp
    cases hp
  · rw [Dict.findIgnoringCase?_of_find? hp, hdataset, below, Option.bind_some, ← hat] at hfound
    have hdataset' : (c.datasetsAt k).findIgnoringCase? k.dataset ≠ none := fun hnone => by
      rw [hnone] at hfound
      exact hfound rfl
    have hnodup := (h.datasets _ (Dict.mem_put_self _ k.project _)).nodup_lower
    exact Dict.find?_ne_none_of_nodup_put hnodup hdataset' hnone

/-- In a catalog that stays valid each spelling of the new address finds the new table, and all
others find what they found. -/
theorem get?_insert_of_wellNamed (h : (c.insert k m).WellNamed) :
    (c.insert k m).get? k' = if SameKey k' k then some m else c.get? k' := by
  split
  · rename_i hsame
    rw [get?_eq_of_sameKey h hsame, get?_insert_self]
  · rename_i hother
    refine (get?_insert_cases m hother).resolve_right ?_
    rintro ⟨-, k'', hshadows, -⟩
    exact not_shadows_of_wellNamed h hshadows

/-! ## One table after another -/

/-- The catalog with some tables put in, the first one first. -/
def insertAll (c : Catalog) (tables : List (TableKey × TableMetadata)) : Catalog :=
  tables.foldl (fun c t => c.insert t.1 t.2) c

/-- The metadata that came last for an address in any spelling. -/
def lastFor (k : TableKey) (tables : List (TableKey × TableMetadata)) : Option TableMetadata :=
  (tables.reverse.find? fun t => SameKey k t.1).map Prod.snd

theorem insertAll_concat (c : Catalog) (tables : List (TableKey × TableMetadata))
    (t : TableKey × TableMetadata) :
    c.insertAll (tables ++ [t]) = (c.insertAll tables).insert t.1 t.2 := by
  simp [insertAll]

theorem lastFor_concat (k : TableKey) (tables : List (TableKey × TableMetadata))
    (t : TableKey × TableMetadata) :
    lastFor k (tables ++ [t]) = if SameKey k t.1 then some t.2 else lastFor k tables := by
  rw [lastFor, List.reverse_concat, List.find?_cons]
  by_cases hsame : SameKey k t.1 <;> simp [hsame, lastFor]

/-- Along a history that ends in a valid catalog nothing is lost. By induction on the last table put
in, as the catalog was valid before it too. -/
theorem get?_insertAll {tables : List (TableKey × TableMetadata)}
    (h : (c.insertAll tables).WellNamed) :
    (c.insertAll tables).get? k = (lastFor k tables).or (c.get? k) := by
  induction tables using List.reverseRecOn with
  | nil => rfl
  | append_singleton tables t ih =>
      rw [insertAll_concat] at h ⊢
      rw [get?_insert_of_wellNamed h, lastFor_concat, ih (wellNamed_of_insert h)]
      split <;> rfl

/-- **What putting in one table does to the others.** The new table is found under its address.
Another table is found as before or not at all, and all others are found as before exactly if the
address shadows none of them: if no table is found by an address with the very spelling of its
project, or of its project and dataset, while nothing is stored under this spelling. Where the
catalog is valid after any number of tables, each address in any spelling leads to what came last
for it, or else to what was there at first. -/
theorem get?_after_inserts (c : Catalog) :
    (∀ k m, (c.insert k m).get? k = some m)
      ∧ (∀ k m k', ¬SameKey k' k →
        (c.insert k m).get? k' = c.get? k' ∨ (c.insert k m).get? k' = none)
      ∧ (∀ k m, (∀ k', ¬SameKey k' k → (c.insert k m).get? k' = c.get? k')
        ↔ ∀ k', ¬c.Shadows k k')
      ∧ ∀ tables, (c.insertAll tables).validate = .ok () →
        ∀ k, (c.insertAll tables).get? k = (lastFor k tables).or (c.get? k) := by
  refine ⟨get?_insert_self c, fun k m k' hother => ?_, fun k m => ⟨fun hsame k' hshadows => ?_, ?_⟩,
    fun tables hvalid k => get?_insertAll (validate_eq_ok_iff.mp hvalid)⟩
  · exact (get?_insert_cases m hother).imp_right And.left
  · refine hshadows.found ?_
    rw [← hsame k' hshadows.other, get?_insert_of_shadows hshadows]
  · intro hnone k' hother
    refine (get?_insert_cases m hother).resolve_right ?_
    rintro ⟨-, k'', hshadows, -⟩
    exact hnone k'' hshadows

theorem get?_after_inserts_shop :
    shop.validate = .ok ()
      ∧ (shop.insert ⟨"Acme", "shop", "Returns"⟩ {}).get? ⟨"Acme", "shop", "Returns"⟩ = some {}
      ∧ shop.get? ⟨"ACME", "Shop", "orders"⟩ = some { rowCount := some 3 } := by
  have hvalid : shop.validate = .ok () := by decide +kernel
  refine ⟨hvalid, (get?_after_inserts shop).1 _ _, ?_⟩
  obtain ⟨-, -, -, hhistory⟩ := get?_after_inserts {}
  have hfound := hhistory [(⟨"Acme", "shop", "Orders"⟩, { rowCount := some 3 }),
    (⟨"Acme", "shop", "Items"⟩, { rowCount := some 7 })] hvalid ⟨"ACME", "Shop", "orders"⟩
  exact hfound.trans (by decide +kernel)

theorem get?_insert_capitals :
    shop.validate = .ok ()
      ∧ ¬SameKey ⟨"ACME", "shop", "Orders"⟩ ⟨"ACME", "lab", "Runs"⟩
      ∧ shop.get? ⟨"ACME", "shop", "Orders"⟩ = some { rowCount := some 3 }
      ∧ (shop.insert ⟨"ACME", "lab", "Runs"⟩ {}).get? ⟨"ACME", "shop", "Orders"⟩ = none := by
  decide +kernel

end Catalog

end QueryLineage
