import Mathlib.Data.List.Nodup
import QueryLineage.Metadata.Catalog

/-!
# The names in a catalog

A catalog is looked through level by level, and at each level by an exact name first, then by the
first name that is the same up to case; what was passed over is not come back to. So the table that
is found depends on how the address is spelled, and one that is there may not be found, unless no
two siblings are the same up to case. That is what validation sees to: a valid catalog is one whose
siblings are `UsableNames` at each level (`validate_eq_ok_iff`), and among such siblings a name in
any case leads to one entry at most (`Dict.findIgnoringCase?_eq_some_iff`).
-/

namespace QueryLineage

/-! ## One level -/

theorem Text.eqIgnoringCase_iff {a b : String} :
    eqIgnoringCase a b = true ↔ lowerAscii a = lowerAscii b :=
  beq_iff_eq

/-- Names of siblings that can be told apart: none is blank or has a dot, and no two are the same up
to case. -/
structure UsableNames (names : List String) : Prop where
  not_blank : ∀ name ∈ names, Text.isBlankText name = false
  dotFree : ∀ name ∈ names, '.' ∉ name.toList
  nodup_lower : (names.map Text.lowerAscii).Nodup

namespace Dict

variable {α : Type} {d : Dict α} {k : String}

theorem exists_of_findIgnoringCase? {v : α} (h : d.findIgnoringCase? k = some v) :
    ∃ name, (name, v) ∈ d.toList ∧ Text.lowerAscii name = Text.lowerAscii k := by
  unfold findIgnoringCase? at h
  split at h
  · rename_i w hexact
    obtain rfl := Option.some.inj h
    exact ⟨k, find?_eq_some_iff.mp hexact, rfl⟩
  · obtain ⟨⟨name, w⟩, hfound, rfl⟩ := Option.map_eq_some_iff.mp h
    have hname := List.find?_some hfound
    exact ⟨name, List.mem_of_find?_eq_some hfound, Text.eqIgnoringCase_iff.mp hname⟩

theorem findIgnoringCase?_eq_none_iff :
    d.findIgnoringCase? k = none
      ↔ ∀ e ∈ d.toList, Text.lowerAscii e.1 ≠ Text.lowerAscii k := by
  constructor
  · intro h e he hlower
    unfold findIgnoringCase? at h
    split at h
    · cases h
    · rw [Option.map_eq_none_iff, List.find?_eq_none] at h
      exact h e he (Text.eqIgnoringCase_iff.mpr hlower)
  · intro h
    rw [Option.eq_none_iff_forall_ne_some]
    intro v hfound
    obtain ⟨name, hmem, hlower⟩ := exists_of_findIgnoringCase? hfound
    exact h (name, v) hmem hlower

theorem eq_of_lower_eq (hd : (d.keys.map Text.lowerAscii).Nodup) {e f : String × α}
    (he : e ∈ d.toList) (hf : f ∈ d.toList) (h : Text.lowerAscii e.1 = Text.lowerAscii f.1) :
    e = f := by
  rw [keys, List.map_map] at hd
  exact List.inj_on_of_nodup_map hd he hf h

/-- Where names are told apart, a name in any case leads to the one entry that it can mean: what is
found agrees with the name up to case, and there is no second such entry. -/
theorem findIgnoringCase?_eq_some_iff (hd : (d.keys.map Text.lowerAscii).Nodup) {v : α} :
    d.findIgnoringCase? k = some v
      ↔ ∃ name, (name, v) ∈ d.toList ∧ Text.lowerAscii name = Text.lowerAscii k := by
  refine ⟨exists_of_findIgnoringCase?, ?_⟩
  rintro ⟨name, hmem, hlower⟩
  cases hfound : d.findIgnoringCase? k with
  | none => exact absurd hlower (findIgnoringCase?_eq_none_iff.mp hfound _ hmem)
  | some w =>
      obtain ⟨name', hmem', hlower'⟩ := exists_of_findIgnoringCase? hfound
      have hsame := eq_of_lower_eq hd hmem hmem' (hlower.trans hlower'.symm)
      rw [(Prod.mk.inj hsame).2]

end Dict

/-! ## Checks one after another -/

theorem andThen_eq_ok_iff {ε : Type} {x y : Except ε Unit} :
    (do x; y) = .ok () ↔ x = .ok () ∧ y = .ok () := by
  cases x <;> simp [bind, Except.bind]

theorem forM_eq_ok_iff {α ε : Type} {f : α → Except ε Unit} {l : List α} :
    l.forM f = .ok () ↔ ∀ a ∈ l, f a = .ok () := by
  induction l with
  | nil => exact iff_of_true rfl nofun
  | cons a rest ih =>
      rw [List.forall_mem_cons, ← ih]
      exact andThen_eq_ok_iff

namespace Catalog

/-! ## Validation -/

theorem nameDefect?_eq_none_iff {earlier : List String} {name : String} :
    nameDefect? earlier name = none
      ↔ Text.isBlankText name = false ∧ '.' ∉ name.toList
        ∧ ∀ e ∈ earlier, Text.lowerAscii e ≠ Text.lowerAscii name := by
  unfold nameDefect?
  split
  · rename_i hblank
    simp [hblank]
  · split
    · rename_i hdot
      simp [List.contains_iff_mem.mp hdot]
    · rename_i hblank hdot
      have hdot' : '.' ∉ name.toList := fun h => hdot (List.contains_iff_mem.mpr h)
      split
      · rename_i hany
        obtain ⟨e, he, hsame⟩ := List.any_eq_true.mp hany
        refine iff_of_false nofun fun h => ?_
        exact h.2.2 e he (Text.eqIgnoringCase_iff.mp hsame)
      · rename_i hany
        refine iff_of_true rfl ⟨Bool.eq_false_iff.mpr hblank, hdot', fun e he hlower => hany ?_⟩
        exact List.any_eq_true.mpr ⟨e, he, Text.eqIgnoringCase_iff.mpr hlower⟩

/-- Siblings have no defect if they can be used and none has the name of an earlier one. By
induction on the siblings, for all earlier names, as each sibling is an earlier one to the rest. -/
theorem firstDefect?_eq_none_iff {earlier names : List String} :
    firstDefect? earlier names = none
      ↔ UsableNames names
        ∧ ∀ e ∈ earlier, ∀ name ∈ names, Text.lowerAscii e ≠ Text.lowerAscii name := by
  induction names generalizing earlier with
  | nil => simpa [firstDefect?] using ⟨nofun, nofun, List.nodup_nil⟩
  | cons name rest ih =>
      have hfirst : firstDefect? earlier (name :: rest) = none
          ↔ nameDefect? earlier name = none ∧ firstDefect? (name :: earlier) rest = none := by
        rw [firstDefect?]
        cases nameDefect? earlier name <;> simp
      rw [hfirst, nameDefect?_eq_none_iff, ih]
      constructor
      · rintro ⟨⟨hblank, hdot, hearlier⟩, hrest, hlater⟩
        obtain ⟨hname, hlater⟩ := List.forall_mem_cons.mp hlater
        constructor
        · constructor
          case not_blank => exact List.forall_mem_cons.mpr ⟨hblank, hrest.not_blank⟩
          case dotFree => exact List.forall_mem_cons.mpr ⟨hdot, hrest.dotFree⟩
          case nodup_lower =>
            rw [List.map_cons, List.nodup_cons]
            refine ⟨fun hmem => ?_, hrest.nodup_lower⟩
            obtain ⟨other, hother, hlower⟩ := List.mem_map.mp hmem
            exact hname other hother hlower.symm
        · intro e he
          exact List.forall_mem_cons.mpr ⟨hearlier e he, hlater e he⟩
      · rintro ⟨⟨hblank, hdot, hlower⟩, hearlier⟩
        obtain ⟨hblank, hblanks⟩ := List.forall_mem_cons.mp hblank
        obtain ⟨hdot, hdots⟩ := List.forall_mem_cons.mp hdot
        rw [List.map_cons, List.nodup_cons] at hlower
        have hname : ∀ other ∈ rest, Text.lowerAscii name ≠ Text.lowerAscii other :=
          fun other hother hsame => hlower.1 (hsame ▸ List.mem_map_of_mem hother)
        have hlater : ∀ e ∈ earlier, ∀ other ∈ rest,
            Text.lowerAscii e ≠ Text.lowerAscii other :=
          fun e he other hother => hearlier e he other (List.mem_cons_of_mem name hother)
        exact ⟨⟨hblank, hdot, fun e he => hearlier e he name List.mem_cons_self⟩,
          ⟨hblanks, hdots, hlower.2⟩, List.forall_mem_cons.mpr ⟨hname, hlater⟩⟩

theorem checkNames_eq_ok_iff {parent names : List String} :
    checkNames parent names = .ok () ↔ UsableNames names := by
  have hnone : checkNames parent names = .ok () ↔ firstDefect? [] names = none := by
    unfold checkNames
    cases firstDefect? [] names <;> simp
  rw [hnone, firstDefect?_eq_none_iff]
  exact and_iff_left nofun

/-- Siblings can be told apart at each of the three levels. -/
structure WellNamed (c : Catalog) : Prop where
  projects : UsableNames c.projects.keys
  datasets : ∀ p ∈ c.projects.toList, UsableNames p.2.keys
  tables : ∀ p ∈ c.projects.toList, ∀ d ∈ p.2.toList, UsableNames d.2.keys

theorem validate_eq_ok_iff {c : Catalog} : c.validate = .ok () ↔ c.WellNamed := by
  unfold validate
  rw [andThen_eq_ok_iff, checkNames_eq_ok_iff, forM_eq_ok_iff]
  simp only [andThen_eq_ok_iff, checkNames_eq_ok_iff, forM_eq_ok_iff]
  constructor
  · rintro ⟨hprojects, hbelow⟩
    exact ⟨hprojects, fun p hp => (hbelow p hp).1, fun p hp => (hbelow p hp).2⟩
  · rintro ⟨hprojects, hdatasets, htables⟩
    exact ⟨hprojects, fun p hp => ⟨hdatasets p hp, htables p hp⟩⟩

/-! ## Looking up -/

/-- The catalog holds this metadata under exactly this address. -/
def Stores (c : Catalog) (k : TableKey) (m : TableMetadata) : Prop :=
  ∃ datasets tables, (k.project, datasets) ∈ c.projects.toList
    ∧ (k.dataset, tables) ∈ datasets.toList ∧ (k.table, m) ∈ tables.toList

/-- The two addresses are the same up to case, part by part. -/
structure SameKey (k k' : TableKey) : Prop where
  project : Text.lowerAscii k.project = Text.lowerAscii k'.project
  dataset : Text.lowerAscii k.dataset = Text.lowerAscii k'.dataset
  table : Text.lowerAscii k.table = Text.lowerAscii k'.table

namespace SameKey

variable {k k' k'' : TableKey}

theorem refl (k : TableKey) : SameKey k k := ⟨rfl, rfl, rfl⟩

theorem symm (h : SameKey k k') : SameKey k' k :=
  ⟨h.project.symm, h.dataset.symm, h.table.symm⟩

theorem trans (h : SameKey k k') (h' : SameKey k' k'') : SameKey k k'' :=
  ⟨h.project.trans h'.project, h.dataset.trans h'.dataset, h.table.trans h'.table⟩

end SameKey

variable {c : Catalog} {k k' : TableKey} {m m' : TableMetadata}

theorem get?_eq_some_iff (hc : c.WellNamed) :
    c.get? k = some m ↔ ∃ k', c.Stores k' m ∧ SameKey k' k := by
  unfold get?
  simp only [Option.bind_eq_bind, Option.bind_eq_some_iff]
  constructor
  · rintro ⟨datasets, hdatasets, tables, htables, htable⟩
    obtain ⟨p, hp, hproject⟩ := Dict.exists_of_findIgnoringCase? hdatasets
    obtain ⟨d, hd, hdataset⟩ := Dict.exists_of_findIgnoringCase? htables
    obtain ⟨t, ht, htable⟩ := Dict.exists_of_findIgnoringCase? htable
    exact ⟨⟨p, d, t⟩, ⟨datasets, tables, hp, hd, ht⟩, hproject, hdataset, htable⟩
  · rintro ⟨⟨p, d, t⟩, ⟨datasets, tables, hp, hd, ht⟩, hproject, hdataset, htable⟩
    have hnames := (hc.datasets _ hp).nodup_lower
    have hnames' := (hc.tables _ hp _ hd).nodup_lower
    exact ⟨datasets,
      (Dict.findIgnoringCase?_eq_some_iff hc.projects.nodup_lower).mpr ⟨p, hp, hproject⟩,
      tables, (Dict.findIgnoringCase?_eq_some_iff hnames).mpr ⟨d, hd, hdataset⟩,
      (Dict.findIgnoringCase?_eq_some_iff hnames').mpr ⟨t, ht, htable⟩⟩

/-- No two tables have addresses that are the same up to case. On each level names are told apart,
so from the top down the two lie in one branch. -/
theorem eq_of_sameKey (hc : c.WellNamed) (h : c.Stores k m) (h' : c.Stores k' m')
    (hsame : SameKey k k') : k = k' ∧ m = m' := by
  obtain ⟨p, d, t⟩ := k
  obtain ⟨p', d', t'⟩ := k'
  obtain ⟨datasets, tables, hp, hd, ht⟩ := h
  obtain ⟨datasets', tables', hp', hd', ht'⟩ := h'
  -- From the top down, what holds the two tables is the same.
  obtain ⟨rfl, rfl⟩ :=
    Prod.mk.inj (Dict.eq_of_lower_eq hc.projects.nodup_lower hp hp' hsame.project)
  obtain ⟨rfl, rfl⟩ :=
    Prod.mk.inj (Dict.eq_of_lower_eq (hc.datasets _ hp).nodup_lower hd hd' hsame.dataset)
  obtain ⟨rfl, rfl⟩ :=
    Prod.mk.inj (Dict.eq_of_lower_eq (hc.tables _ hp _ hd).nodup_lower ht ht' hsame.table)
  exact ⟨rfl, rfl⟩

theorem get?_eq_of_sameKey (hc : c.WellNamed) (h : SameKey k k') : c.get? k = c.get? k' := by
  apply Option.ext
  intro m
  rw [get?_eq_some_iff hc, get?_eq_some_iff hc]
  constructor
  · rintro ⟨stored, hstored, hsame⟩
    exact ⟨stored, hstored, hsame.trans h⟩
  · rintro ⟨stored, hstored, hsame⟩
    exact ⟨stored, hstored, hsame.trans h.symm⟩

/-! ## Names of tables -/

theorem mem_keys_iff : k ∈ c.keys ↔ ∃ m, c.Stores k m := by
  obtain ⟨p, d, t⟩ := k
  simp only [keys, List.mem_flatMap, Dict.keys, List.mem_map, TableKey.mk.injEq]
  constructor
  · rintro ⟨⟨_, datasets⟩, hp, ⟨_, tables⟩, hd, _, ⟨⟨_, m⟩, ht, rfl⟩, rfl, rfl, rfl⟩
    exact ⟨m, datasets, tables, hp, hd, ht⟩
  · rintro ⟨m, datasets, tables, hp, hd, ht⟩
    exact ⟨(p, datasets), hp, (d, tables), hd, t, ⟨(t, m), ht, rfl⟩, rfl, rfl, rfl⟩

/-- The name of a table comes apart into its address again, since no name on the way has a dot. -/
theorem split_text_of_stores (hc : c.WellNamed) (h : c.Stores k m) :
    Text.split '.' k.text = [k.project, k.dataset, k.table] := by
  obtain ⟨datasets, tables, hp, hd, ht⟩ := h
  have hproject := hc.projects.dotFree k.project (List.mem_map_of_mem hp)
  have hdataset := (hc.datasets _ hp).dotFree k.dataset (List.mem_map_of_mem hd)
  have htable := (hc.tables _ hp _ hd).dotFree k.table (List.mem_map_of_mem ht)
  refine Text.split_join (by decide) (List.cons_ne_nil _ _) fun part hpart => ?_
  simp only [List.mem_cons, List.not_mem_nil, or_false] at hpart
  rcases hpart with rfl | rfl | rfl
  · exact hproject
  · exact hdataset
  · exact htable

/-- **Every spelling finds the one table it can mean.** A catalog is valid if and only if, at each
level, no name is blank or has a dot and no two siblings are the same up to case. In a valid catalog
an address leads to the only table whose own address is the same up to case, or to nothing if there
is no such table. So the spelling does not matter, and every listed name leads to its table. All
rests on `get?_eq_some_iff`, which goes down the three levels with
`Dict.findIgnoringCase?_eq_some_iff`. -/
theorem get?_up_to_case (c : Catalog) :
    (c.validate = .ok () ↔ c.WellNamed)
      ∧ (c.validate = .ok () →
        (∀ k, match c.get? k with
          | some m => ∃ k', c.Stores k' m ∧ SameKey k' k
              ∧ ∀ k'' m', c.Stores k'' m' → SameKey k'' k → k'' = k' ∧ m' = m
          | none => ∀ k' m, c.Stores k' m → ¬SameKey k' k)
        ∧ (∀ k k', SameKey k k' → c.get? k = c.get? k')
        ∧ ∀ name ∈ c.tableNames, ∃ k m, Text.split '.' name = [k.project, k.dataset, k.table]
            ∧ c.Stores k m ∧ c.get? k = some m) := by
  refine ⟨validate_eq_ok_iff, fun hvalid => ?_⟩
  have hc := validate_eq_ok_iff.mp hvalid
  refine ⟨fun k => ?_, fun k k' => get?_eq_of_sameKey hc, fun name hname => ?_⟩
  · split
    · rename_i m hfound
      obtain ⟨k', hstored, hsame⟩ := (get?_eq_some_iff hc).mp hfound
      refine ⟨k', hstored, hsame, fun k'' m' hstored' hsame' => ?_⟩
      exact eq_of_sameKey hc hstored' hstored (hsame'.trans hsame.symm)
    · rename_i hnone
      intro k' m hstored hsame
      have hfound := (get?_eq_some_iff hc).mpr ⟨k', hstored, hsame⟩
      rw [hnone] at hfound
      cases hfound
  · rw [tableNames, List.mem_mergeSort] at hname
    obtain ⟨k, hk, rfl⟩ := List.mem_map.mp hname
    obtain ⟨m, hstored⟩ := mem_keys_iff.mp hk
    exact ⟨k, m, split_text_of_stores hc hstored, hstored,
      (get?_eq_some_iff hc).mpr ⟨k, hstored, .refl k⟩⟩

/-- A catalog of two tables, with capitals in its names. -/
def shop : Catalog :=
  (({} : Catalog).insert ⟨"Acme", "shop", "Orders"⟩ { rowCount := some 3 }).insert
    ⟨"Acme", "shop", "Items"⟩ { rowCount := some 7 }

theorem get?_shop :
    shop.validate = .ok () ∧ SameKey ⟨"ACME", "Shop", "orders"⟩ ⟨"Acme", "shop", "Orders"⟩
      ∧ shop.get? ⟨"ACME", "Shop", "orders"⟩ = shop.get? ⟨"Acme", "shop", "Orders"⟩
      ∧ shop.get? ⟨"Acme", "shop", "Orders"⟩ = some { rowCount := some 3 }
      ∧ shop.get? ⟨"Acme", "shop", "Returns"⟩ = none
      ∧ ∃ k m, Text.split '.' "Acme.shop.Items" = [k.project, k.dataset, k.table]
          ∧ shop.Stores k m ∧ shop.get? k = some m := by
  have hvalid : shop.validate = .ok () := by decide +kernel
  have hsame : SameKey ⟨"ACME", "Shop", "orders"⟩ ⟨"Acme", "shop", "Orders"⟩ :=
    ⟨by decide +kernel, by decide +kernel, by decide +kernel⟩
  have hlisted : "Acme.shop.Items" ∈ shop.tableNames := by
    rw [tableNames, List.mem_mergeSort]
    decide +kernel
  obtain ⟨-, hspelling, hnames⟩ := (get?_up_to_case shop).2 hvalid
  exact ⟨hvalid, hsame, hspelling _ _ hsame, by decide +kernel, by decide +kernel,
    hnames _ hlisted⟩

/-- Without validation a sibling that is the same up to case hides a table: the project `ACME` is
looked into, as it is spelled like this, and not `Acme`, which has the table. -/
example :
    let c := shop.insert ⟨"ACME", "lab", "Runs"⟩ {}
    c.validate.isOk = false ∧ c.get? ⟨"ACME", "shop", "Orders"⟩ = none := by
  decide +kernel

end Catalog

end QueryLineage
