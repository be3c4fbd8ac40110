import Mathlib.Data.List.DropRight
import QueryLineage.Proofs.CompletedNames
import QueryLineage.Proofs.ReportReading

/-!
# Reading names back

A name is written as its text, and reading takes blanks and quotation marks off again, once around
the text and twice around each piece of it. Since nothing is ever put on (`unquote_sublist`), a name
is read back as itself only if there was nothing to take off anywhere, and then it is
(`TableName.parse_text_iff`). But building a name takes off one pair of marks only and keeps what
stands inside, so that blanks and marks may remain.
-/

namespace QueryLineage

/-! ## What is taken off -/

namespace Text

variable {p : Char → Bool} {cs : List Char}

theorem stripBoth_sublist (p : Char → Bool) (cs : List Char) : (stripBoth p cs).Sublist cs :=
  (List.rdropWhile_prefix p (cs.dropWhile p)).sublist.trans (List.dropWhile_sublist p)

theorem stripBoth_eq_self_iff :
    stripBoth p cs = cs
      ↔ (∀ c ∈ cs.head?, p c = false) ∧ ∀ c ∈ cs.getLast?, p c = false := by
  have hfirst : cs.dropWhile p = cs ↔ ∀ c ∈ cs.head?, p c = false := by
    rw [List.dropWhile_eq_self_iff]
    cases cs <;> simp
  have hlast : cs.rdropWhile p = cs ↔ ∀ c ∈ cs.getLast?, p c = false := by
    rw [List.rdropWhile_eq_self_iff]
    cases cs using List.reverseRecOn <;> simp
  rw [← hfirst, ← hlast]
  constructor
  · intro h
    have hkept : (stripBoth p cs).Sublist (cs.dropWhile p) :=
      (List.rdropWhile_prefix p (cs.dropWhile p)).sublist
    rw [h] at hkept
    have hdrop : cs.dropWhile p = cs := (List.dropWhile_sublist p).antisymm hkept
    exact ⟨hdrop, (congrArg (List.rdropWhile p) hdrop).symm.trans h⟩
  · rintro ⟨hdrop, hrdrop⟩
    exact (congrArg (List.rdropWhile p) hdrop).trans hrdrop

/-- Joining puts the pieces together again. By induction on the text: a separator starts a new
piece, any other character goes in front of the first one. -/
theorem join_split {sep : Char} {mark : String} (hmark : mark.toList = [sep]) (s : String) :
    join mark (split sep s) = s := by
  have hchars : ∀ cs, (join mark ((splitChars sep cs).map String.ofList)).toList = cs := by
    intro cs
    induction cs with
    | nil => simp [splitChars, join]
    | cons c cs ih =>
        obtain ⟨piece, rest, hsplit⟩ := List.exists_cons_of_ne_nil (splitChars_ne_nil sep cs)
        rw [hsplit] at ih
        rw [splitChars, hsplit]
        split
        · rename_i hc
          simpa [join, String.intercalate_cons_cons, hmark, hc] using ih
        · cases rest with
          | nil => simpa [join] using ih
          | cons piece' rest => simpa [join, String.intercalate_cons_cons] using ih
  exact String.toList_inj.mp (hchars s.toList)

theorem join_map_sublist {f : String → String} (hf : ∀ s, (f s).toList.Sublist s.toList)
    (mark : String) (parts : List String) :
    (join mark (parts.map f)).toList.Sublist (join mark parts).toList := by
  induction parts with
  | nil => exact List.Sublist.refl _
  | cons s rest ih =>
      cases rest with
      | nil => simpa [join] using hf s
      | cons s' rest =>
          rw [List.map_cons, List.map_cons, join, join, String.intercalate_cons_cons,
            String.intercalate_cons_cons]
          simp only [String.toList_append]
          exact ((hf s).append (List.Sublist.refl _)).append ih

end Text

namespace TableName

/-- Nothing can be taken off a text: it has no blank at either end, and does not stand between two
quotation marks of one kind. -/
structure IsBare (s : String) : Prop where
  first : ∀ c ∈ s.toList.head?, Text.isBlank c = false
  last : ∀ c ∈ s.toList.getLast?, Text.isBlank c = false
  unmarked : ∀ q inner, q = '`' ∨ q = '"' → s.toList ≠ q :: (inner ++ [q])

theorem unquoteChars_sublist (cs : List Char) :
    (unquoteChars cs).Sublist (Text.stripBoth Text.isBlank cs) := by
  unfold unquoteChars
  split
  · rename_i q rest hstrip
    rw [hstrip]
    split
    · exact (List.dropLast_sublist rest).cons q
    · exact List.Sublist.refl _
  · exact List.nil_sublist _

theorem unquote_sublist (s : String) : (unquote s).toList.Sublist s.toList := by
  rw [unquote, String.toList_ofList]
  exact (unquoteChars_sublist s.toList).trans (Text.stripBoth_sublist Text.isBlank s.toList)

theorem unquote_eq_self_iff {s : String} : unquote s = s ↔ IsBare s := by
  have hchars : unquote s = s ↔ unquoteChars s.toList = s.toList := by
    rw [← String.toList_inj, unquote, String.toList_ofList]
  rw [hchars]
  constructor
  · intro h
    have hkept := unquoteChars_sublist s.toList
    rw [h] at hkept
    have hstrip := (Text.stripBoth_sublist Text.isBlank s.toList).antisymm hkept
    obtain ⟨hfirst, hlast⟩ := Text.stripBoth_eq_self_iff.mp hstrip
    refine ⟨hfirst, hlast, fun q inner hq hmarked => ?_⟩
    rw [unquoteChars, hstrip, hmarked] at h
    have hlength := congrArg List.length h
    simp [hq] at hlength
    omega
  · rintro ⟨hfirst, hlast, hunmarked⟩
    rw [unquoteChars, Text.stripBoth_eq_self_iff.mpr ⟨hfirst, hlast⟩]
    split
    · rename_i q rest hcs
      have hopen : ¬((q = '`' ∨ q = '"') ∧ rest.getLast? = some q) := by
        rintro ⟨hq, hclose⟩
        obtain ⟨inner, rfl⟩ := List.getLast?_eq_some_iff.mp hclose
        exact hunmarked q inner hq hcs
      rw [if_neg hopen, hcs]
    · rename_i hcs
      exact hcs.symm

instance : DecidablePred IsBare := fun _ => decidable_of_iff _ unquote_eq_self_iff

/-- What two times leave as it is, one time does, as taking marks off only takes away. -/
theorem unquote_eq_of_twice {s : String} (h : unquote (unquote s) = s) : unquote s = s := by
  have hback := unquote_sublist (unquote s)
  rw [h] at hback
  exact String.toList_inj.mp ((unquote_sublist s).antisymm hback)

/-! ## Reading what was written -/

theorem pieces_of_dotFree {segments : List String} (h : ∀ s ∈ segments, '.' ∉ s.toList) :
    pieces segments = segments.map unquote := by
  have hsplit : segments.flatMap (Text.split '.') = segments.flatMap fun s => [s] :=
    List.flatMap_congr fun s hs => Text.split_of_not_mem (h s hs)
  rw [pieces, hsplit, List.flatMap_singleton']

variable {t : TableName}

theorem ofSegments_of_parse {text : String} (h : parse text = .ok t) :
    ofSegments ((Text.split '.' (unquote text)).map unquote) = .ok t := by
  unfold parse at h
  split at h
  · rename_i name hname
    rw [hname, Except.ok.inj h]
  · cases h

/-- The segments of a name that is read: the pieces of the text, each with marks taken off twice,
once by the reader and once where the name is made. No piece has a dot left, so none comes apart. -/
theorem segments_of_parse {text : String} (h : parse text = .ok t) :
    t.segments = (Text.split '.' (unquote text)).map fun s => unquote (unquote s) := by
  have hdotFree : ∀ s ∈ (Text.split '.' (unquote text)).map unquote, '.' ∉ s.toList := by
    intro s hs hdot
    obtain ⟨piece, hpiece, rfl⟩ := List.mem_map.mp hs
    exact Text.not_mem_of_mem_split hpiece ((unquote_sublist piece).mem hdot)
  rw [(segments_of_ofSegments (ofSegments_of_parse h)).1, pieces_of_dotFree hdotFree, List.map_map]
  rfl

theorem split_text (t : TableName) : Text.split '.' t.text = t.segments :=
  Text.split_join rfl t.nonempty t.dotFree

/-- A proper name is made of its segments, if nothing is taken off them: no segment comes apart at a
dot, and none of the three reasons to refuse a name applies. -/
theorem ofSegments_segments (ht : t.IsProper) (hbare : ∀ s ∈ t.segments, unquote s = s) :
    ofSegments t.segments = .ok t := by
  have hpieces : pieces t.segments = t.segments := by
    rw [pieces_of_dotFree t.dotFree]
    exact (List.map_congr_left hbare).trans (List.map_id _)
  have hsome : pieces t.segments ≠ [] := by
    rw [hpieces]
    exact t.nonempty
  have hsolid : ¬(pieces t.segments).any Text.isBlankText = true := by
    simpa [hpieces] using ht.2
  have hshort : ¬maxSegments < (pieces t.segments).length := by
    rw [hpieces]
    exact Nat.not_lt.mpr ht.1
  rw [ofSegments, dif_neg hsome, if_neg hsolid, if_neg hshort]
  exact congrArg Except.ok (text_injective (congrArg (Text.join ".") hpieces))

/-- A proper name is read from its text just when nothing is taken off the text or a segment.
Reading only takes away; so if it comes to the same name, each of its steps has taken nothing. -/
theorem parse_text_iff (ht : t.IsProper) :
    parse t.text = .ok t ↔ IsBare t.text ∧ ∀ s ∈ t.segments, IsBare s := by
  simp only [← unquote_eq_self_iff]
  constructor
  · intro h
    have hsegments := segments_of_parse h
    -- Reading only takes away, and the segments it comes to make the whole text again.
    have hwhole : unquote t.text = t.text := by
      have hless := Text.join_map_sublist
        (fun s => (unquote_sublist (unquote s)).trans (unquote_sublist s)) "."
        (Text.split '.' (unquote t.text))
      rw [← hsegments, Text.join_split rfl] at hless
      exact String.toList_inj.mp ((unquote_sublist t.text).antisymm hless)
    rw [hwhole, split_text] at hsegments
    refine ⟨hwhole, fun s hs => unquote_eq_of_twice ?_⟩
    have htwice := List.map_inj_left.mp ((List.map_id t.segments).trans hsegments) s hs
    exact htwice.symm
  · rintro ⟨hwhole, hbare⟩
    have hsegments : t.segments.map unquote = t.segments :=
      (List.map_congr_left hbare).trans (List.map_id _)
    rw [parse, hwhole, split_text, hsegments, ofSegments_segments ht hbare]

/-- **Reading a name back.** A name that was built, from a text or from segments, is read from its
own text, and from what it is written as, just when its text and each of its segments are bare. Both
ways of building make proper names, and a name is written as its text. -/
theorem reread_iff_isBare
    (h : (∃ raw, parse raw = .ok t) ∨ ∃ segments, ofSegments segments = .ok t) :
    (parse t.text = .ok t ↔ IsBare t.text ∧ ∀ s ∈ t.segments, IsBare s)
      ∧ (ofJson t.toJson = some t ↔ IsBare t.text ∧ ∀ s ∈ t.segments, IsBare s) := by
  have hproper : t.IsProper := by
    rcases h with ⟨raw, h⟩ | ⟨segments, h⟩
    · exact isProper_of_ofSegments (ofSegments_of_parse h)
    · exact isProper_of_ofSegments h
  have hjson := t.rereads t.toJson (.refl t.toJson)
  exact ⟨parse_text_iff hproper, hjson.trans (parse_text_iff hproper)⟩

theorem reread_inDataset :
    parse "`d.t`" = .ok inDataset ∧ parse inDataset.text = .ok inDataset
      ∧ ofJson inDataset.toJson = some inDataset := by
  have hread : parse "`d.t`" = .ok inDataset := by decide +kernel
  have hbare : IsBare inDataset.text ∧ ∀ s ∈ inDataset.segments, IsBare s := by decide +kernel
  have h := reread_iff_isBare (.inl ⟨_, hread⟩)
  exact ⟨hread, h.1.mpr hbare, h.2.mpr hbare⟩

/-- Names with marks or blanks left inside, and what they are read back as. -/
theorem reread_nestedMarks :
    (["``orders``", "` orders `", "````"].map fun s => (ofSegments [s]).toOption.map fun t =>
        (t.text, (parse t.text).toOption.map text, (ofJson t.toJson).map text))
      = [some ("`orders`", some "orders", some "orders"),
          some (" orders ", some "orders", some "orders"), some ("``", none, none)]
      ∧ (parse "````orders````").toOption.map text = some "`orders`" := by
  decide +kernel

end TableName

end QueryLineage
