import QueryLineage.Proofs.ReadingNames

/-!
# The parts of a name

A name is read from a text or made of segments, and then completed by defaults, over and over. With
the defaults that a configuration may hold, it always has one to three segments and none of them is
blank (`isProper_of_isBuilt`), so that the project, the dataset and the table's own name are all of
its segments. Completing puts segments in front (`qualify_cases` says when which), leaves a name of
three segments alone, and after one time there is nothing left to do.
-/

namespace QueryLineage

namespace TableDefaults

/-- A validated configuration has these defaults. -/
def AreAccepted (d : TableDefaults) : Prop :=
  ∃ c : Config, c.validate = .ok () ∧ c.tableDefaults = d

/-- Accepted are the defaults that are absent or one segment each. -/
theorem areAccepted_iff {d : TableDefaults} :
    d.AreAccepted ↔ Config.isSegment d.project = true ∧ Config.isSegment d.dataset = true := by
  constructor
  · rintro ⟨c, hvalid, rfl⟩
    exact Config.isSegment_of_validate hvalid
  · rintro ⟨hproject, hdataset⟩
    refine ⟨{ defaultProject := d.project, defaultDataset := d.dataset }, ?_, rfl⟩
    have hwidth : ¬({} : Config).joinLabelWidth < Config.minJoinLabelWidth := by decide
    have hversion : ¬Text.isBlankText ({} : Config).governance.lineageVersion = true := by
      decide +kernel
    rw [Config.validate, if_neg hwidth, if_neg hversion, hproject, hdataset]
    rfl

end TableDefaults

namespace TableName

/-- The names that there can be: those that are read or made of segments, and what accepted
defaults make of them. -/
inductive IsBuilt : TableName → Prop
  | parsed {text : String} {t : TableName} : parse text = .ok t → IsBuilt t
  | ofSegments {segments : List String} {t : TableName} :
    TableName.ofSegments segments = .ok t → IsBuilt t
  | qualified {t : TableName} {d : TableDefaults} :
    IsBuilt t → d.AreAccepted → IsBuilt (t.qualify d.project d.dataset)

theorem isProper_of_isBuilt {t : TableName} (h : t.IsBuilt) : t.IsProper := by
  induction h with
  | parsed hread => exact isProper_of_ofSegments (ofSegments_of_parse hread)
  | ofSegments hmade => exact isProper_of_ofSegments hmade
  | qualified _ haccepted ih =>
      obtain ⟨hproject, hdataset⟩ := TableDefaults.areAccepted_iff.mp haccepted
      exact TableDefaults.isProper_qualify (TableDefaults.fit_of_isSegment hproject hdataset) ih

/-! ## Completing -/

theorem length_lt_under (outer : String) (t : TableName) :
    t.segments.length < (t.under outer).segments.length := by
  have hpieces := List.length_pos_of_ne_nil (Text.split_ne_nil '.' outer)
  rw [under, List.length_append]
  omega

section Qualify

variable (project dataset : Option String) (t : TableName)

/-- What completing does: a bare name takes a dataset, and with it a project; one with its dataset
takes a project; and in all other cases the name stays. -/
theorem qualify_cases :
    (t.segments.length = 1 ∧ ∃ p d, project = some p ∧ dataset = some d
        ∧ t.qualify project dataset = (t.under d).under p)
      ∨ (t.segments.length = 1 ∧ project = none ∧ ∃ d, dataset = some d
        ∧ t.qualify project dataset = t.under d)
      ∨ (t.segments.length = 2 ∧ ∃ p, project = some p ∧ t.qualify project dataset = t.under p)
      ∨ t.qualify project dataset = t := by
  unfold qualify
  split
  · rename_i hone
    exact .inl ⟨congrArg List.length hone, _, _, rfl, rfl, rfl⟩
  · rename_i hone
    exact .inr (.inl ⟨congrArg List.length hone, rfl, _, rfl, rfl⟩)
  · rename_i hpair
    exact .inr (.inr (.inl ⟨congrArg List.length hpair, _, rfl, rfl⟩))
  · exact .inr (.inr (.inr rfl))

/-- Completing only puts segments in front, one or two of them or none. -/
theorem segments_suffix_qualify : t.segments <:+ (t.qualify project dataset).segments := by
  have hunder : ∀ (outer : String) (t : TableName), t.segments <:+ (t.under outer).segments :=
    fun outer t => List.suffix_append _ _
  rcases t.qualify_cases project dataset with
    ⟨-, p, d, -, -, heq⟩ | ⟨-, -, d, -, heq⟩ | ⟨-, p, -, heq⟩ | heq
  · rw [heq]
    exact (hunder d t).trans (hunder p (t.under d))
  · rw [heq]
    exact hunder d t
  · rw [heq]
    exact hunder p t
  · exact heq.symm ▸ List.suffix_rfl

variable {t}

theorem qualify_of_three_le (h : 3 ≤ t.segments.length) : t.qualify project dataset = t := by
  rcases t.qualify_cases project dataset with ⟨hone, -⟩ | ⟨hone, -⟩ | ⟨htwo, -⟩ | heq
  · omega
  · omega
  · omega
  · exact heq

theorem qualify_of_two_le (h : 2 ≤ t.segments.length) : t.qualify none dataset = t := by
  rcases t.qualify_cases none dataset with ⟨hone, -⟩ | ⟨hone, -⟩ | ⟨-, p, hp, -⟩ | heq
  · omega
  · omega
  · cases hp
  · exact heq

variable (t) in
/-- What is completed is complete. In each of the four cases either three segments are reached, or
what is missing is missing from the defaults too. -/
theorem qualify_twice :
    (t.qualify project dataset).qualify project dataset = t.qualify project dataset := by
  have hpos := List.length_pos_of_ne_nil t.nonempty
  rcases t.qualify_cases project dataset with
    ⟨-, p, d, -, -, heq⟩ | ⟨-, rfl, d, -, heq⟩ | ⟨htwo, p, -, heq⟩ | heq
  · have hd := length_lt_under d t
    have hp := length_lt_under p (t.under d)
    rw [heq, qualify_of_three_le project dataset (by omega)]
  · have hd := length_lt_under d t
    rw [heq, qualify_of_two_le dataset (by omega)]
  · have hp := length_lt_under p t
    rw [heq, qualify_of_three_le project dataset (by omega)]
  · rw [heq, heq]

end Qualify

/-! ## Parts -/

theorem segments_eq_parts {t : TableName} (h : t.segments.length ≤ maxSegments) :
    t.segments = t.project.toList ++ t.dataset.toList ++ [t.shortName] := by
  match t, h with
  | ⟨[_], _, _⟩, _ => rfl
  | ⟨[_, _], _, _⟩, _ => rfl
  | ⟨[_, _, _], _, _⟩, _ => rfl
  | ⟨_ :: _ :: _ :: _ :: rest, _, _⟩, h =>
      have hlong : rest.length + 4 ≤ 3 := h
      omega

/-- **The parts of a name.** A name that is read or made of segments, and completed any number of
times by accepted defaults, has one to three segments, none of them blank, which are also the pieces
of its text; they are its project, its dataset and its short name, as far as it has them. Completing
it keeps its segments as the last ones, changes no name of three segments and changes nothing the
second time. The bounds are carried through the completions by `isProper_of_isBuilt`, as accepted
defaults are one segment each; all else is true of any name that is short enough. -/
theorem parts_of_isBuilt {t : TableName} (h : t.IsBuilt) :
    (1 ≤ t.segments.length ∧ t.segments.length ≤ 3
        ∧ ∀ s ∈ t.segments, Text.isBlankText s = false)
      ∧ Text.split '.' t.text = t.segments
      ∧ t.segments = t.project.toList ++ t.dataset.toList ++ [t.shortName]
      ∧ ∀ project dataset,
        t.segments <:+ (t.qualify project dataset).segments
          ∧ (t.segments.length = 3 → t.qualify project dataset = t)
          ∧ (t.qualify project dataset).qualify project dataset = t.qualify project dataset := by
  obtain ⟨hshort, hsolid⟩ := isProper_of_isBuilt h
  refine ⟨⟨List.length_pos_of_ne_nil t.nonempty, hshort, hsolid⟩, t.split_text,
    segments_eq_parts hshort, fun project dataset => ⟨?_, fun hthree => ?_, ?_⟩⟩
  · exact segments_suffix_qualify project dataset t
  · exact qualify_of_three_le project dataset (Nat.le_of_eq hthree.symm)
  · exact qualify_twice project dataset t

/-- The name `d.t`, read from a quoted text and completed by a project. -/
theorem parts_of_isBuilt_inDataset :
    let t := inDataset.qualify (some "p") none
    t.IsBuilt ∧ t.text = "p.d.t" ∧ t.segments = ["p"] ++ ["d"] ++ ["t"]
      ∧ t.qualify (some "q") (some "e") = t := by
  intro t
  have hread : parse "`d.t`" = .ok inDataset := by decide +kernel
  have haccepted : TableDefaults.AreAccepted ⟨some "p", none⟩ :=
    TableDefaults.areAccepted_iff.mpr (by decide +kernel)
  have hbuilt : t.IsBuilt := .qualified (.parsed hread) haccepted
  have h := parts_of_isBuilt hbuilt
  exact ⟨hbuilt, by decide +kernel, h.2.2.1, (h.2.2.2 (some "q") (some "e")).2.1 (by decide)⟩

end TableName

end QueryLineage
