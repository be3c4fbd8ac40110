/-!
# Values in order of a key

`SortedBy key` holds values in strictly ascending order of a text key, hence at most one per key.
Keys are ordered by code point, which is the order of their UTF-8 bytes. A `Dict` is the case of
entries ordered by their first component.
-/

namespace QueryLineage

/-- Values in strictly ascending order of their keys. -/
structure SortedBy {α : Type} (key : α → String) where
  toList : List α
  ascending : (toList.map key).Pairwise (· < ·)

namespace SortedBy

variable {α : Type} {key : α → String}

def empty : SortedBy key := ⟨[], by simp⟩

instance : EmptyCollection (SortedBy key) := ⟨empty⟩

instance : Inhabited (SortedBy key) := ⟨empty⟩

theorem ext {s t : SortedBy key} (h : s.toList = t.toList) : s = t := by
  cases s; cases t; cases h; rfl

instance [DecidableEq α] : DecidableEq (SortedBy key) := fun s t =>
  if h : s.toList = t.toList then isTrue (ext h) else isFalse fun e => h (e ▸ rfl)

/-- Puts `a` in its place; a value of the same key gives way to it. -/
def insertInto (key : α → String) (a : α) : List α → List α
  | [] => [a]
  | b :: rest =>
    if key a < key b then a :: b :: rest
    else if key a = key b then a :: rest
    else b :: insertInto key a rest

theorem mem_insertInto {a x : α} {l : List α} (h : x ∈ insertInto key a l) : x = a ∨ x ∈ l := by
  induction l with
  | nil => simpa [insertInto] using h
  | cons b rest ih =>
    simp only [insertInto] at h
    split at h
    · simpa using h
    · split at h
      · rcases List.mem_cons.1 h with h | h
        · exact .inl h
        · exact .inr (List.mem_cons_of_mem _ h)
      · rcases List.mem_cons.1 h with h | h
        · exact .inr (h ▸ List.mem_cons_self)
        · exact (ih h).imp_right (List.mem_cons_of_mem _)

theorem ascending_insertInto (a : α) {l : List α} (h : (l.map key).Pairwise (· < ·)) :
    ((insertInto key a l).map key).Pairwise (· < ·) := by
  induction l with
  | nil => simp [insertInto]
  | cons b rest ih =>
    rw [List.map_cons, List.pairwise_cons] at h
    simp only [insertInto]
    split
    · rename_i hab
      simp only [List.map_cons, List.pairwise_cons]
      refine ⟨fun k hk => ?_, h⟩
      rcases List.mem_cons.1 hk with rfl | hk
      · exact hab
      · exact String.lt_trans hab (h.1 k hk)
    · split
      · rename_i hab
        rw [List.map_cons, List.pairwise_cons, hab]
        exact h
      · rename_i hlt hne
        rw [List.map_cons, List.pairwise_cons]
        refine ⟨fun k hk => ?_, ih h.2⟩
        obtain ⟨x, hx, rfl⟩ := List.mem_map.1 hk
        rcases mem_insertInto hx with rfl | hx
        · exact Std.lt_of_le_of_ne (Std.not_lt.1 hlt) (Ne.symm hne)
        · exact h.1 _ (List.mem_map_of_mem hx)

/-- The values with `a` among them; one of the same key gives way to it. -/
def insert (a : α) (s : SortedBy key) : SortedBy key :=
  ⟨insertInto key a s.toList, ascending_insertInto a s.ascending⟩

def get? (s : SortedBy key) (k : String) : Option α := s.toList.find? (key · == k)

def hasKey (s : SortedBy key) (k : String) : Bool := s.toList.any (key · == k)

/-- The values of a list, the last of each key. -/
def ofList (l : List α) : SortedBy key := l.foldl (fun s a => s.insert a) empty

/-- The values of both; where a key is in both, that of `t`. -/
def union (s t : SortedBy key) : SortedBy key := t.toList.foldl (fun s a => s.insert a) s

def size (s : SortedBy key) : Nat := s.toList.length

def isEmpty (s : SortedBy key) : Bool := s.toList.isEmpty

/-! ## What a collection holds

Everything is said by membership in `toList`; the order is in the type and not spoken of again. -/

theorem eq_of_key_eq {l : List α} (h : (l.map key).Pairwise (· < ·)) {a b : α} (ha : a ∈ l)
    (hb : b ∈ l) (hab : key a = key b) : a = b := by
  induction l with
  | nil => cases ha
  | cons c rest ih =>
      rw [List.map_cons, List.pairwise_cons] at h
      have hlt : ∀ x ∈ rest, key c < key x := fun x hx => h.1 _ (List.mem_map_of_mem hx)
      rcases List.mem_cons.mp ha with rfl | ha' <;> rcases List.mem_cons.mp hb with rfl | hb'
      · rfl
      · exact absurd (hab ▸ hlt b hb') (String.lt_irrefl _)
      · exact absurd (hab ▸ hlt a ha') (String.lt_irrefl _)
      · exact ih h.2 ha' hb'

theorem mem_insertInto_iff {l : List α} (h : (l.map key).Pairwise (· < ·)) {a x : α} :
    x ∈ insertInto key a l ↔ x = a ∨ x ∈ l ∧ key x ≠ key a := by
  induction l with
  | nil => simp [insertInto]
  | cons b rest ih =>
      rw [List.map_cons, List.pairwise_cons] at h
      have hlt : ∀ y ∈ rest, key b < key y := fun y hy => h.1 _ (List.mem_map_of_mem hy)
      simp only [insertInto]
      split
      · rename_i hab
        have hne : ∀ y ∈ b :: rest, key y ≠ key a := by
          intro y hy he
          rcases List.mem_cons.mp hy with rfl | hy
          · exact String.lt_irrefl _ (he ▸ hab)
          · exact String.lt_irrefl _ (he ▸ String.lt_trans hab (hlt y hy))
        rw [List.mem_cons]
        exact or_congr_right ⟨fun hx => ⟨hx, hne x hx⟩, And.left⟩
      · split
        · rename_i hab
          have hne : ∀ y ∈ rest, key y ≠ key a := fun y hy he =>
            String.lt_irrefl _ (he ▸ hab ▸ hlt y hy)
          simp only [List.mem_cons]
          refine or_congr_right ⟨fun hx => ⟨.inr hx, hne x hx⟩, ?_⟩
          rintro ⟨rfl | hx, hk⟩
          · exact absurd hab.symm hk
          · exact hx
        · rename_i hab
          simp only [List.mem_cons, ih h.2]
          constructor
          · rintro (rfl | rfl | ⟨hx, hk⟩)
            · exact .inr ⟨.inl rfl, Ne.symm hab⟩
            · exact .inl rfl
            · exact .inr ⟨.inr hx, hk⟩
          · rintro (rfl | ⟨rfl | hx, hk⟩)
            · exact .inr (.inl rfl)
            · exact .inl rfl
            · exact .inr (.inr ⟨hx, hk⟩)

theorem mem_insert {s : SortedBy key} {a x : α} :
    x ∈ (s.insert a).toList ↔ x = a ∨ x ∈ s.toList ∧ key x ≠ key a :=
  mem_insertInto_iff s.ascending

/-- Where no two values of a list share a key, all of them stay. By induction on the list from the
end, as a value takes the place of one with its own key only. -/
theorem mem_ofList_of_nodup {l : List α} (h : (l.map key).Nodup) {x : α} :
    x ∈ (ofList l : SortedBy key).toList ↔ x ∈ l := by
  have hfold : ∀ (l : List α) (s : SortedBy key), (l.map key).Nodup →
      (∀ a ∈ l, ∀ b ∈ s.toList, key b ≠ key a) →
      (x ∈ (l.foldl (fun s a => s.insert a) s).toList ↔ x ∈ s.toList ∨ x ∈ l) := by
    intro l
    induction l with
    | nil => simp
    | cons a rest ih =>
        intro s hnodup hapart
        rw [List.map_cons, List.nodup_cons] at hnodup
        have hrest : ∀ b ∈ rest, ∀ c ∈ (s.insert a).toList, key c ≠ key b := by
          intro b hb c hc
          rcases mem_insert.mp hc with rfl | ⟨hc, -⟩
          · exact fun he => hnodup.1 (he ▸ List.mem_map_of_mem hb)
          · exact hapart b (List.mem_cons_of_mem a hb) c hc
        rw [List.foldl_cons, ih (s.insert a) hnodup.2 hrest, mem_insert, List.mem_cons, or_assoc]
        constructor
        · rintro (rfl | ⟨hx, -⟩ | hx)
          · exact .inr (.inl rfl)
          · exact .inl hx
          · exact .inr (.inr hx)
        · rintro (hx | rfl | hx)
          · exact .inr (.inl ⟨hx, hapart a List.mem_cons_self x hx⟩)
          · exact .inl rfl
          · exact .inr (.inr hx)
  exact (hfold l ∅ h fun _ _ _ hb => nomatch hb).trans (or_iff_right List.not_mem_nil)

theorem get?_eq_some_iff {s : SortedBy key} {k : String} {a : α} :
    s.get? k = some a ↔ a ∈ s.toList ∧ key a = k := by
  constructor
  · intro h
    exact ⟨List.mem_of_find?_eq_some h, by simpa using List.find?_some h⟩
  · rintro ⟨ha, rfl⟩
    cases hfound : s.get? (key a) with
    | none => simpa using List.find?_eq_none.mp hfound a ha
    | some b =>
        have hb : key b = key a := by simpa using List.find?_some hfound
        rw [eq_of_key_eq s.ascending (List.mem_of_find?_eq_some hfound) ha hb]

/-- The first value with a property is the one of the least key: all before it have lesser keys. -/
theorem find?_toList_eq_some_iff {s : SortedBy key} {p : α → Bool} {a : α} :
    s.toList.find? p = some a
      ↔ (a ∈ s.toList ∧ p a = true) ∧ ∀ b ∈ s.toList, p b = true → key a ≤ key b := by
  have hleast : ∀ {a}, s.toList.find? p = some a → ∀ b ∈ s.toList, p b = true → key a ≤ key b := by
    intro a h b hb hp
    obtain ⟨-, before, after, hlist, hbefore⟩ := List.find?_eq_some_iff_append.mp h
    have hascending := s.ascending
    rw [hlist, List.map_append, List.map_cons] at hascending
    have hafter := List.pairwise_cons.mp (List.pairwise_append.mp hascending).2.1
    rw [hlist] at hb
    rcases List.mem_append.mp hb with hb | hb
    · exact absurd hp (by simpa using hbefore b hb)
    · rcases List.mem_cons.mp hb with rfl | hb
      · exact String.le_refl _
      · exact String.not_lt.mp (String.lt_asymm (hafter.1 _ (List.mem_map_of_mem hb)))
  constructor
  · intro h
    exact ⟨⟨List.mem_of_find?_eq_some h, List.find?_some h⟩, hleast h⟩
  · rintro ⟨⟨ha, hp⟩, hle⟩
    obtain ⟨c, hc⟩ := Option.isSome_iff_exists.mp (List.find?_isSome.mpr ⟨a, ha, hp⟩)
    have hcin := List.mem_of_find?_eq_some hc
    have hkey := String.le_antisymm (hle c hcin (List.find?_some hc)) (hleast hc a ha hp)
    rw [eq_of_key_eq s.ascending ha hcin hkey, hc]

theorem hasKey_iff {s : SortedBy key} {k : String} :
    s.hasKey k = true ↔ ∃ a ∈ s.toList, key a = k := by
  simp [hasKey]

theorem nodup_keys (s : SortedBy key) : (s.toList.map key).Nodup := by
  refine List.Pairwise.imp ?_ s.ascending
  intro a b h hab
  subst hab
  exact String.lt_irrefl a h

theorem nodup_toList (s : SortedBy key) : s.toList.Nodup :=
  List.Pairwise.imp (fun h e => h (congrArg key e)) (List.pairwise_map.mp s.nodup_keys)

/-- A collection is known by its values: there is one order for them, and no key is there twice. So
two of them are shown to be equal value by value. -/
theorem ext_mem {s t : SortedBy key} (h : ∀ a, a ∈ s.toList ↔ a ∈ t.toList) : s = t := by
  apply ext
  have hperm := (List.perm_ext_iff_of_nodup s.nodup_toList t.nodup_toList).mpr h
  refine hperm.eq_of_pairwise ?_ (List.pairwise_map.mp s.ascending)
    (List.pairwise_map.mp t.ascending)
  intro a b _ _ hab hba
  exact absurd (String.lt_trans hab hba) (String.lt_irrefl _)

section Injective

/-! Where a key tells its values apart, a collection is a set: no value gives way to another. -/

variable (hkey : Function.Injective key)

include hkey

theorem mem_insert_of_injective {s : SortedBy key} {a x : α} :
    x ∈ (s.insert a).toList ↔ x = a ∨ x ∈ s.toList := by
  rw [mem_insert]
  by_cases hx : x = a
  · simp [hx]
  · have hk : key x ≠ key a := fun h => hx (hkey h)
    simp [hx, hk]

theorem mem_foldl_insert {l : List α} {s : SortedBy key} {x : α} :
    x ∈ (l.foldl (fun s a => s.insert a) s).toList ↔ x ∈ s.toList ∨ x ∈ l := by
  induction l generalizing s with
  | nil => simp
  | cons a rest ih =>
      rw [List.foldl_cons, ih, mem_insert_of_injective hkey, List.mem_cons, or_assoc]
      exact or_left_comm

theorem mem_ofList {l : List α} {x : α} : x ∈ (ofList l : SortedBy key).toList ↔ x ∈ l := by
  rw [ofList, mem_foldl_insert hkey]
  exact or_iff_right (List.not_mem_nil)

theorem mem_union {s t : SortedBy key} {x : α} :
    x ∈ (s.union t).toList ↔ x ∈ s.toList ∨ x ∈ t.toList :=
  mem_foldl_insert hkey

end Injective

theorem size_le_of_subset {s t : SortedBy key} (h : s.toList ⊆ t.toList) : s.size ≤ t.size :=
  List.Nodup.length_le_of_subset s.nodup_toList h

end SortedBy

/-- Entries of a text-keyed table, in order of their keys. -/
abbrev Dict (α : Type) := SortedBy (Prod.fst : String × α → String)

namespace Dict

variable {α : Type}

def find? (d : Dict α) (k : String) : Option α := (d.get? k).map Prod.snd

/-- The table with `v` under `k`. -/
def put (k : String) (v : α) (d : Dict α) : Dict α := d.insert (k, v)

/-- The table with `v` under `k`, unless something is there already. -/
def putNew (k : String) (v : α) (d : Dict α) : Dict α := if d.hasKey k then d else d.put k v

/-- The table with each value replaced, under the same keys. -/
def mapValues {β : Type} (f : String → α → β) (d : Dict α) : Dict β where
  toList := d.toList.map fun e => (e.1, f e.1 e.2)
  ascending := by rw [List.map_map]; exact d.ascending

def keys (d : Dict α) : List String := d.toList.map Prod.fst

def values (d : Dict α) : List α := d.toList.map Prod.snd

/-! ## Looking up and putting -/

theorem find?_eq_some_iff {d : Dict α} {k : String} {v : α} :
    d.find? k = some v ↔ (k, v) ∈ d.toList := by
  rw [find?, Option.map_eq_some_iff]
  constructor
  · rintro ⟨⟨j, w⟩, hfound, rfl⟩
    obtain ⟨hmem, rfl⟩ := SortedBy.get?_eq_some_iff.mp hfound
    exact hmem
  · intro h
    exact ⟨(k, v), SortedBy.get?_eq_some_iff.mpr ⟨h, rfl⟩, rfl⟩

theorem hasKey_iff_find? {d : Dict α} {k : String} :
    d.hasKey k = true ↔ ∃ v, d.find? k = some v := by
  simp only [SortedBy.hasKey_iff, find?_eq_some_iff]
  constructor
  · rintro ⟨⟨j, v⟩, hmem, rfl⟩
    exact ⟨v, hmem⟩
  · rintro ⟨v, hmem⟩
    exact ⟨(k, v), hmem, rfl⟩

theorem find?_eq_none_iff {d : Dict α} {k : String} :
    d.find? k = none ↔ d.hasKey k = false := by
  rw [← Bool.not_eq_true, hasKey_iff_find?, Option.eq_none_iff_forall_ne_some]
  exact not_exists.symm

theorem mem_keys {d : Dict α} {k : String} : k ∈ d.keys ↔ d.hasKey k = true := by
  rw [SortedBy.hasKey_iff, keys, List.mem_map]

theorem find?_empty (k : String) : (∅ : Dict α).find? k = none := rfl

theorem find?_put (d : Dict α) (k j : String) (v : α) :
    (d.put k v).find? j = if j = k then some v else d.find? j := by
  apply Option.ext
  intro w
  rw [find?_eq_some_iff, put, SortedBy.mem_insert]
  split
  · rename_i h
    simp [h, eq_comm]
  · rename_i h
    simp [h, find?_eq_some_iff]

theorem hasKey_put (d : Dict α) (k j : String) (v : α) :
    (d.put k v).hasKey j = true ↔ j = k ∨ d.hasKey j = true := by
  rw [hasKey_iff_find?, hasKey_iff_find?]
  simp only [find?_put]
  split <;> simp_all

theorem find?_putNew (d : Dict α) (k j : String) (v : α) :
    (d.putNew k v).find? j = (d.find? j).or (if j = k then some v else none) := by
  rw [putNew]
  split
  · rename_i h
    obtain ⟨w, hw⟩ := hasKey_iff_find?.mp h
    split
    · rename_i hj
      simp [hj, hw]
    · simp
  · rename_i h
    rw [find?_put]
    split
    · rename_i hj
      have hnone := find?_eq_none_iff.mpr (Bool.not_eq_true _ ▸ h)
      simp [hj, hnone]
    · simp

/-- Of the entries put under a key the last stays. By induction on the entries, for whatever is
there by then. -/
theorem find?_ofList (l : List (String × α)) (k : String) :
    Dict.find? (SortedBy.ofList l) k = (l.reverse.find? (·.1 = k)).map Prod.snd := by
  have hfold : ∀ (l : List (String × α)) (d : Dict α),
      Dict.find? (l.foldl (fun s e => s.insert e) d) k
        = ((l.reverse.find? (·.1 = k)).map Prod.snd).or (d.find? k) := by
    intro l
    induction l with
    | nil => simp
    | cons e rest ih =>
        intro d
        have hput : Dict.find? (SortedBy.insert e d) k = if k = e.1 then some e.2 else d.find? k :=
          find?_put d e.1 k e.2
        rw [List.foldl_cons, ih, hput, List.reverse_cons, List.find?_append, Option.map_or,
          Option.or_assoc]
        by_cases hk : e.1 = k
        · simp [hk]
        · simp [hk, Ne.symm hk]
  exact (hfold l ∅).trans (Option.or_none)

/-- Of the entries put under a new key the first stays, and none if the key was there. By induction
on the entries, for whatever is there by then. -/
theorem find?_foldl_putNew (l : List (String × α)) (d : Dict α) (k : String) :
    (l.foldl (fun d e => Dict.putNew e.1 e.2 d) d).find? k
      = (d.find? k).or ((l.find? (·.1 = k)).map Prod.snd) := by
  induction l generalizing d with
  | nil => simp
  | cons e rest ih =>
      rw [List.foldl_cons, ih, find?_putNew, Option.or_assoc, List.find?_cons]
      by_cases hk : e.1 = k
      · simp [hk]
      · simp [hk, Ne.symm hk]

/-- A value put under a key that is there takes the place of the old one. The entry is found behind
all lesser keys, and that is where the new one is put. -/
theorem toList_put_of_find? {d : Dict α} {k : String} {v : α} (h : d.find? k = some v) (w : α) :
    ∃ before after, d.toList = before ++ (k, v) :: after
      ∧ (d.put k w).toList = before ++ (k, w) :: after := by
  obtain ⟨before, after, hsplit⟩ := List.append_of_mem (find?_eq_some_iff.mp h)
  refine ⟨before, after, hsplit, ?_⟩
  have hbefore : ∀ e ∈ before, e.1 < k := by
    intro e he
    have hasc := d.ascending
    rw [hsplit, List.map_append, List.pairwise_append] at hasc
    exact hasc.2.2 e.1 (List.mem_map_of_mem he) k (by simp)
  show SortedBy.insertInto Prod.fst (k, w) d.toList = _
  rw [hsplit]
  clear hsplit h
  induction before with
  | nil => simp [SortedBy.insertInto]
  | cons e rest ih =>
      have hlt := hbefore e List.mem_cons_self
      have hrest := ih fun f hf => hbefore f (List.mem_cons_of_mem e hf)
      simp only [List.cons_append, SortedBy.insertInto, hrest]
      rw [if_neg (String.lt_asymm hlt), if_neg fun he => String.lt_irrefl _ (he ▸ hlt)]

theorem find?_mapValues {β : Type} (f : String → α → β) (d : Dict α) (k : String) :
    (d.mapValues f).find? k = (d.find? k).map (f k) := by
  apply Option.ext
  intro w
  rw [find?_eq_some_iff, Option.map_eq_some_iff]
  simp only [find?_eq_some_iff, mapValues, List.mem_map, Prod.mk.injEq]
  constructor
  · rintro ⟨⟨j, v⟩, hmem, rfl, rfl⟩
    exact ⟨v, hmem, rfl⟩
  · rintro ⟨v, hmem, rfl⟩
    exact ⟨(k, v), hmem, rfl, rfl⟩

theorem hasKey_mapValues {β : Type} (f : String → α → β) (d : Dict α) (k : String) :
    (d.mapValues f).hasKey k = d.hasKey k := by
  simp [SortedBy.hasKey, mapValues, Function.comp_def]

end Dict

end QueryLineage
