import Mathlib.Data.List.Forall2
import Mathlib.Data.List.Nodup
import QueryLineage.Json.Reader

/-!
# Reading what was written

An object comes back with its members in whatever order it was stored. `Reordered` relates a value
to those that differ from it in nothing else, at any depth, and `Rereads` says exactly when a reader
takes each of them for what was written. There is a lemma for each way to put readers together, so
that for a record only its fields are left to compare.

What carries the argument for objects is that no two members share a name: a field is then found
wherever it stands.
-/

namespace QueryLineage

namespace Json

/-! ## Reordered values -/

/-- The same value but for the order of the members of objects. -/
inductive Reordered : Json → Json → Prop
  | null : Reordered .null .null
  | bool (b : Bool) : Reordered (.bool b) (.bool b)
  | int (n : Int) : Reordered (.int n) (.int n)
  | str (s : String) : Reordered (.str s) (.str s)
  | arr {items others : List Json} (h : List.Forall₂ Reordered items others) :
      Reordered (.arr items) (.arr others)
  | obj {members moved others : List (String × Json)} (hmoved : members.Perm moved)
      (hnames : moved.map Prod.fst = others.map Prod.fst)
      (hvalues : List.Forall₂ Reordered (moved.map Prod.snd) (others.map Prod.snd)) :
      Reordered (.obj members) (.obj others)

mutual

theorem Reordered.refl : ∀ v : Json, v.Reordered v
  | .null => .null
  | .bool b => .bool b
  | .int n => .int n
  | .str s => .str s
  | .arr items => .arr (forall₂_reordered_refl items)
  | .obj members => .obj (List.Perm.refl _) rfl (forall₂_reordered_values_refl members)

theorem forall₂_reordered_refl : ∀ items : List Json, List.Forall₂ Reordered items items
  | [] => .nil
  | v :: rest => .cons (Reordered.refl v) (forall₂_reordered_refl rest)

theorem forall₂_reordered_values_refl : ∀ members : List (String × Json),
    List.Forall₂ Reordered (members.map Prod.snd) (members.map Prod.snd)
  | [] => .nil
  | (_, v) :: rest => .cons (Reordered.refl v) (forall₂_reordered_values_refl rest)

end

/-- The members of an object, no two of one name, have come back as `others`. -/
structure Given (members others : List (String × Json)) : Prop where
  distinct : (others.map Prod.fst).Nodup
  names : (members.map Prod.fst).Perm (others.map Prod.fst)
  forth : ∀ m ∈ members, ∃ n ∈ others, n.1 = m.1 ∧ m.2.Reordered n.2
  back : ∀ n ∈ others, ∃ m ∈ members, n.1 = m.1 ∧ m.2.Reordered n.2

section

variable {items : List Json} {members others : List (String × Json)} {v w : Json} {name : String}

theorem Reordered.exists_items (h : (Json.arr items).Reordered v) :
    ∃ others, v = .arr others ∧ List.Forall₂ Reordered items others := by
  cases h with
  | arr h => exact ⟨_, rfl, h⟩

theorem Reordered.eq_null (h : v.Reordered .null) : v = .null := by
  cases h with
  | null => rfl

theorem exists_reordered_of_forall₂ : ∀ {members others : List (String × Json)},
    members.map Prod.fst = others.map Prod.fst →
    List.Forall₂ Reordered (members.map Prod.snd) (others.map Prod.snd) →
      (∀ m ∈ members, ∃ n ∈ others, n.1 = m.1 ∧ m.2.Reordered n.2)
        ∧ ∀ n ∈ others, ∃ m ∈ members, n.1 = m.1 ∧ m.2.Reordered n.2
  | [], [], _, _ => ⟨nofun, nofun⟩
  | m :: members, n :: others, hnames, hvalues => by
      obtain ⟨hname, hrest⟩ := List.cons.inj hnames
      obtain ⟨hvalue, hvalues⟩ := List.forall₂_cons.mp hvalues
      obtain ⟨hforth, hback⟩ := exists_reordered_of_forall₂ hrest hvalues
      rw [List.forall_mem_cons, List.forall_mem_cons]
      refine ⟨⟨⟨n, List.mem_cons_self, hname.symm, hvalue⟩, fun m hm => ?_⟩,
        ⟨m, List.mem_cons_self, hname.symm, hvalue⟩, fun n hn => ?_⟩
      · obtain ⟨n, hn, h⟩ := hforth m hm
        exact ⟨n, List.mem_cons_of_mem _ hn, h⟩
      · obtain ⟨m, hm, h⟩ := hback n hn
        exact ⟨m, List.mem_cons_of_mem _ hm, h⟩

theorem Reordered.exists_given (h : (Json.obj members).Reordered v)
    (hdistinct : (members.map Prod.fst).Nodup) :
    ∃ others, v = .obj others ∧ Given members others := by
  cases h with
  | @obj _ moved others hmoved hnames hvalues =>
      have hperm : (members.map Prod.fst).Perm (others.map Prod.fst) := hnames ▸ hmoved.map _
      obtain ⟨hforth, hback⟩ := exists_reordered_of_forall₂ hnames hvalues
      refine ⟨others, rfl, hperm.nodup_iff.mp hdistinct, hperm, fun m hm => ?_, fun n hn => ?_⟩
      · exact hforth m (hmoved.mem_iff.mp hm)
      · obtain ⟨m, hm, h⟩ := hback n hn
        exact ⟨m, hmoved.mem_iff.mpr hm, h⟩

/-! ## Fields -/

theorem mem_member?_iff {α : Type} {f : α → Json} {o : Option α} {key : String} :
    (name, w) ∈ member? key f o ↔ name = key ∧ ∃ a ∈ o, f a = w := by
  cases o <;> simp [member?, eq_comm]

theorem mem_map_fst_member?_iff {α : Type} {f : α → Json} {o : Option α} {key : String} :
    name ∈ (member? key f o).map Prod.fst ↔ name = key ∧ o.isSome := by
  cases o <;> simp [member?]

theorem lookup_eq_some_iff (hnames : (members.map Prod.fst).Nodup) :
    members.lookup name = some w ↔ (name, w) ∈ members := by
  induction members with
  | nil => simp
  | cons m rest ih =>
      rw [List.map_cons, List.nodup_cons] at hnames
      obtain ⟨key, u⟩ := m
      have hhere : (key, w) ∉ rest := fun hw =>
        hnames.1 (List.mem_map.mpr ⟨(key, w), hw, rfl⟩)
      rw [List.lookup_cons, List.mem_cons, ← ih hnames.2, Prod.mk.injEq]
      by_cases hkey : name = key
      · subst hkey
        simp [ih hnames.2, hhere, eq_comm]
      · simp [hkey, beq_eq_false_iff_ne.mpr hkey]

theorem Given.exists_lookup (h : Given members others) (hmember : (name, w) ∈ members) :
    ∃ v, others.lookup name = some v ∧ w.Reordered v := by
  obtain ⟨⟨_, v⟩, hn, rfl, hv⟩ := h.forth _ hmember
  exact ⟨v, (lookup_eq_some_iff h.distinct).mpr hn, hv⟩

theorem Given.lookup_eq_none (h : Given members others) (hmissing : name ∉ members.map Prod.fst) :
    others.lookup name = none := by
  rw [List.lookup_eq_none_iff]
  intro n hn
  have hname := h.names.mem_iff.not.mp hmissing
  simpa using fun he : name = n.1 => hname (he ▸ List.mem_map_of_mem hn)

end

/-! ## Readers -/

section

variable {α β : Type}

/-- However its members come back, what was written for `a` is read as `a` if and only if `P`. -/
def Rereads (r : Reader α) (written : Json) (a : α) (P : Prop) : Prop :=
  ∀ v, written.Reordered v → (r v = some a ↔ P)

variable {r : Reader α} {q : Reader β} {P : α → Prop}

theorem rereads_string (s : String) : Rereads string (.str s) s True := by
  rintro _ ⟨⟩
  simp [string]

theorem rereads_boolean (b : Bool) : Rereads boolean (.bool b) b True := by
  rintro _ ⟨⟩
  simp [boolean]

theorem rereads_count (n : Nat) : Rereads count (nat n) n (n ≤ Text.maxCount) := by
  rintro _ ⟨⟩
  simp [count]

/-- Nothing is told apart from a value, as no value is written as `null`, and only `null` comes back
as it. -/
theorem rereads_nullable (write : α → Json) {o : Option α} (hnull : ∀ a, write a ≠ .null)
    (h : ∀ a ∈ o, Rereads r (write a) a (P a)) :
    Rereads (nullable r) (ofOption write o) o (∀ a ∈ o, P a) := by
  cases o with
  | none =>
      rintro _ ⟨⟩
      simp [nullable]
  | some a =>
      intro v hv
      have hvalue : v ≠ .null := by
        rintro rfl
        exact hnull a hv.eq_null
      have hnullable : nullable r v = (r v).map some := by
        cases v with
        | null => exact absurd rfl hvalue
        | _ => rfl
      simp [hnullable, h a rfl v hv]

theorem rereads_text? (o : Option String) : Rereads (nullable string) (text? o) o True := by
  have h : Rereads (nullable string) (text? o) o (∀ s ∈ o, True) :=
    rereads_nullable Json.str (fun _ => Json.noConfusion) fun s _ => rereads_string s
  simpa using h

theorem mapM_eq_some_iff {f : β → Option α} {bs : List β} {l : List α} :
    bs.mapM f = some l ↔ bs.map f = l.map some := by
  induction bs generalizing l with
  | nil => cases l <;> simp
  | cons b bs ih =>
      cases l with
      | nil => simp [Option.bind_eq_some_iff]
      | cons a l => simp [Option.bind_eq_some_iff, ← ih]

theorem map_eq_map_some_filterMap {f : β → Option α} {bs : List β}
    (h : ∀ b ∈ bs, ∃ a, f b = some a) : bs.map f = (bs.filterMap f).map some := by
  rw [List.map_filterMap_some_eq_filter_map_isSome, eq_comm, List.filter_eq_self,
    List.forall_mem_map]
  exact fun b hb => Option.isSome_iff_exists.mpr (h b hb)

theorem rereads_list (write : α → Json) {l : List α} (h : ∀ a ∈ l, Rereads r (write a) a (P a)) :
    Rereads (list r) (.arr (l.map write)) l (∀ a ∈ l, P a) := by
  intro v hv
  obtain ⟨items, rfl, hitems⟩ := hv.exists_items
  rw [List.forall₂_map_left_iff] at hitems
  rw [list, mapM_eq_some_iff]
  clear hv
  induction hitems with
  | nil => simp
  | cons hitem _ ih =>
      rw [List.forall_mem_cons] at h
      rw [List.map_cons, List.map_cons, List.cons.injEq, List.forall_mem_cons, h.1 _ hitem,
        ih h.2]

theorem rereads_strings (l : List String) : Rereads (list string) (strings l) l True := by
  have h : Rereads (list string) (strings l) l (∀ s ∈ l, True) :=
    rereads_list Json.str fun s _ => rereads_string s
  simpa using h

theorem rereads_pair {v w : Json} {a : α} {b : β} (ha : Rereads r v a True)
    (hb : Rereads q w b True) : Rereads (pair r q) (.arr [v, w]) (a, b) True := by
  intro u hu
  obtain ⟨items, rfl, hitems⟩ := hu.exists_items
  cases hitems with
  | cons hv hrest =>
      cases hrest with
      | cons hw hnil =>
          cases hnil
          simp [pair, (ha _ hv).mpr trivial, (hb _ hw).mpr trivial]

/-! ## Dictionaries -/

/-- Reads the entry that a member is. -/
def entry (r : Reader α) (m : String × Json) : Option (String × α) := do return (m.1, ← r m.2)

theorem entry_eq_some_iff {m : String × Json} {e : String × α} :
    entry r m = some e ↔ m.1 = e.1 ∧ r m.2 = some e.2 := by
  obtain ⟨k, a⟩ := e
  simp only [entry, bind, Option.bind_eq_some_iff, pure, Option.some.injEq, Prod.mk.injEq]
  constructor
  · rintro ⟨_, hread, hname, rfl⟩
    exact ⟨hname, hread⟩
  · rintro ⟨hname, hread⟩
    exact ⟨a, hread, hname, rfl⟩

theorem map_fst_of_map_entry : ∀ {members : List (String × Json)} {entries : List (String × α)},
    members.map (entry r) = entries.map some → members.map Prod.fst = entries.map Prod.fst
  | [], [], _ => rfl
  | m :: members, e :: entries, h => by
      obtain ⟨hm, hrest⟩ := List.cons.inj h
      rw [List.map_cons, List.map_cons, (entry_eq_some_iff.mp hm).1, map_fst_of_map_entry hrest]

theorem dict_eq_some_iff {members : List (String × Json)} {d : Dict α} :
    dict r (.obj members) = some d
      ↔ ∃ entries, members.map (entry r) = entries.map some ∧ SortedBy.ofList entries = d := by
  change ((members.mapM (entry r)).bind fun entries => some (SortedBy.ofList entries)) = some d ↔ _
  simp only [Option.bind_eq_some_iff, mapM_eq_some_iff, Option.some.injEq]

theorem rereads_dict (write : α → Json) {d : Dict α}
    (h : ∀ e ∈ d.toList, Rereads r (write e.2) e.2 (P e.2)) :
    Rereads (dict r) (.obj (d.toList.map fun e => (e.1, write e.2))) d
      (∀ e ∈ d.toList, P e.2) := by
  intro v hv
  obtain ⟨others, rfl, hothers⟩ := hv.exists_given (by rw [List.map_map]; exact d.nodup_keys)
  -- Each entry was written for a member that has come back, and each of those for an entry.
  have hforth : ∀ e ∈ d.toList, ∃ n ∈ others, n.1 = e.1 ∧ (r n.2 = some e.2 ↔ P e.2) := by
    intro e he
    obtain ⟨n, hn, hname, hvalue⟩ := hothers.forth _ (List.mem_map_of_mem he)
    exact ⟨n, hn, hname, h e he n.2 hvalue⟩
  have hback : ∀ n ∈ others, ∃ e ∈ d.toList, n.1 = e.1 ∧ (r n.2 = some e.2 ↔ P e.2) := by
    intro n hn
    obtain ⟨m, hm, hname, hvalue⟩ := hothers.back n hn
    obtain ⟨e, he, rfl⟩ := List.mem_map.mp hm
    exact ⟨e, he, hname, h e he n.2 hvalue⟩
  have hkeys : ∀ {entries : List (String × α)}, others.map (entry r) = entries.map some →
      (entries.map Prod.fst).Nodup := fun h =>
    map_fst_of_map_entry h ▸ hothers.distinct
  rw [dict_eq_some_iff]
  constructor
  case mp =>
    rintro ⟨entries, hentries, rfl⟩ e he
    obtain ⟨n, hn, hname, hread⟩ := hforth e he
    have hmem : some e ∈ others.map (entry r) :=
      hentries ▸ List.mem_map_of_mem ((SortedBy.mem_ofList_of_nodup (hkeys hentries)).mp he)
    obtain ⟨n', hn', he'⟩ := List.mem_map.mp hmem
    obtain ⟨hname', hread'⟩ := entry_eq_some_iff.mp he'
    rw [List.inj_on_of_nodup_map hothers.distinct hn hn' (hname.trans hname'.symm)] at hread
    exact hread.mp hread'
  case mpr =>
    intro hall
    have hentries : others.map (entry r) = (others.filterMap (entry r)).map some := by
      refine map_eq_map_some_filterMap fun n hn => ?_
      obtain ⟨e, he, hname, hiff⟩ := hback n hn
      exact ⟨e, entry_eq_some_iff.mpr ⟨hname, hiff.mpr (hall e he)⟩⟩
    refine ⟨_, hentries, SortedBy.ext_mem fun e => ?_⟩
    rw [SortedBy.mem_ofList_of_nodup (hkeys hentries), List.mem_filterMap]
    constructor
    case mp =>
      rintro ⟨n, hn, hread⟩
      obtain ⟨e', he', hname, hiff⟩ := hback n hn
      have hread' := entry_eq_some_iff.mpr ⟨hname, hiff.mpr (hall e' he')⟩
      exact Option.some.inj (hread'.symm.trans hread) ▸ he'
    case mpr =>
      intro he
      obtain ⟨n, hn, hname, hiff⟩ := hforth e he
      exact ⟨n, hn, entry_eq_some_iff.mpr ⟨hname, hiff.mpr (hall e he)⟩⟩

end

/-! ## Records -/

namespace Given

variable {α : Type} {members others : List (String × Json)} {name : String} {w : Json}
  {r : Reader α} {a : α} {P : Prop}

theorem required_iff (h : Given members others) (hmember : (name, w) ∈ members)
    (hr : Rereads r w a P) : (Record.named others).required name r = some a ↔ P := by
  obtain ⟨v, hv, hwv⟩ := h.exists_lookup hmember
  rw [Record.required, Record.value?, hv]
  exact hr v hwv

theorem orNull_iff {o : Option α} (h : Given members others) (hmember : (name, w) ∈ members)
    (hr : Rereads (nullable r) w o P) : (Record.named others).orNull name r = some o ↔ P := by
  obtain ⟨v, hv, hwv⟩ := h.exists_lookup hmember
  have hnullable : (Record.named others).orNull name r = nullable r v := by
    simp [Record.orNull, Record.value?, hv]
  rw [hnullable]
  exact hr v hwv

theorem withDefault_iff {default : α} (h : Given members others) (hmember : (name, w) ∈ members)
    (hr : Rereads r w a P) : (Record.named others).withDefault name r default = some a ↔ P := by
  obtain ⟨v, hv, hwv⟩ := h.exists_lookup hmember
  rw [Record.withDefault, Record.value?, hv]
  exact hr v hwv

theorem withDefault_missing {default : α} (h : Given members others)
    (hmissing : name ∉ members.map Prod.fst) :
    (Record.named others).withDefault name r default = some default := by
  rw [Record.withDefault, Record.value?, h.lookup_eq_none hmissing]

/-- A field that is left out when there is nothing to write: then it is missing when it is read, and
the default is that there is nothing. -/
theorem withDefault_text {o : Option String} (h : Given members others)
    (hthere : ∀ s ∈ o, (name, .str s) ∈ members)
    (hopen : o = none → name ∉ members.map Prod.fst) :
    (Record.named others).withDefault name (nullable string) none = some o := by
  cases o with
  | none => exact h.withDefault_missing (hopen rfl)
  | some s => exact (h.withDefault_iff (hthere s rfl) (rereads_text? (some s))).mpr trivial

theorem required_text {s : String} (h : Given members others)
    (hmember : (name, .str s) ∈ members) :
    (Record.named others).required name string = some s :=
  (h.required_iff hmember (rereads_string s)).mpr trivial

theorem required_texts {l : List String} (h : Given members others)
    (hmember : (name, strings l) ∈ members) :
    (Record.named others).required name (list string) = some l :=
  (h.required_iff hmember (rereads_strings l)).mpr trivial

theorem orNull_text {o : Option String} (h : Given members others)
    (hmember : (name, text? o) ∈ members) :
    (Record.named others).orNull name string = some o :=
  (h.orNull_iff hmember (rereads_text? o)).mpr trivial

end Given

end Json

end QueryLineage
