import QueryLineage.SortedBy
import QueryLineage.Text.Basic
import QueryLineage.Text.Split

/-!
# Table names

A table name is a dotted path: `table`, `dataset.table` or `project.dataset.table`. Quotation marks
are taken off when it is read, so the same table has one name however it was written. Two names are
ordered as their texts are.
-/

namespace QueryLineage

/-- A dotted path of dot-free segments, the outermost first. -/
structure TableName where
  segments : List String
  nonempty : segments ≠ []
  dotFree : ∀ s ∈ segments, '.' ∉ s.toList
deriving DecidableEq

namespace TableName

/-- Why segments make no table name. -/
inductive Defect
  | emptySegment
  | tooManySegments (count : Nat)
deriving DecidableEq

def maxSegments : Nat := 3

def Defect.message : Defect → String
  | .emptySegment => "identifier has an empty segment"
  | .tooManySegments n => s!"expected at most {maxSegments} segments, found {n}"

structure Invalid where
  text : String
  defect : Defect
deriving DecidableEq

def Invalid.message (e : Invalid) : String :=
  s!"[C003] Invalid table identifier '{e.text}': {e.defect.message}"

/-! ## Taking off quotation marks -/

/-- Trims, then takes off one pair of backticks or double quotes. What was inside keeps its
blanks. -/
def unquoteChars (cs : List Char) : List Char :=
  match Text.stripBoth Text.isBlank cs with
  | q :: rest =>
    if (q = '`' ∨ q = '"') ∧ rest.getLast? = some q then rest.dropLast else q :: rest
  | [] => []

theorem mem_of_mem_stripBoth {p : Char → Bool} {c : Char} {cs : List Char}
    (h : c ∈ Text.stripBoth p cs) : c ∈ cs := by
  simp only [Text.stripBoth, List.mem_reverse] at h
  exact (List.dropWhile_sublist _).mem
    (List.mem_reverse.1 ((List.dropWhile_sublist _).mem h))

theorem mem_of_mem_unquoteChars {c : Char} {cs : List Char} (h : c ∈ unquoteChars cs) :
    c ∈ cs := by
  unfold unquoteChars at h
  split at h
  · rename_i q rest heq
    apply mem_of_mem_stripBoth (p := Text.isBlank)
    rw [heq]
    split at h
    · exact List.mem_cons_of_mem _ (List.dropLast_sublist _ |>.mem h)
    · exact h
  · simp at h

/-- The text without the blanks around it and one pair of quotation marks. -/
def unquote (s : String) : String := String.ofList (unquoteChars s.toList)

/-! ## Reading -/

/-- The dot-free pieces of segments, each without its quotation marks. -/
def pieces (segments : List String) : List String :=
  (segments.flatMap (Text.split '.')).map unquote

theorem dotFree_pieces {segments : List String} : ∀ s ∈ pieces segments, '.' ∉ s.toList := by
  intro s hs hdot
  obtain ⟨piece, hp, rfl⟩ := List.mem_map.1 hs
  obtain ⟨segment, _, hsplit⟩ := List.mem_flatMap.1 hp
  rw [unquote, String.toList_ofList] at hdot
  exact Text.not_mem_of_mem_split hsplit (mem_of_mem_unquoteChars hdot)

/-- A name from its segments. A segment that holds dots is split further, as a quoted
`project.dataset` in front of a table is. -/
def ofSegments (segments : List String) : Except Defect TableName :=
  if h : pieces segments = [] then .error .emptySegment
  else if (pieces segments).any Text.isBlankText then .error .emptySegment
  else if maxSegments < (pieces segments).length then
    .error (.tooManySegments (pieces segments).length)
  else .ok ⟨pieces segments, h, dotFree_pieces⟩

/-- What a name was read from: its segments are the pieces, and none of them is blank. -/
theorem segments_of_ofSegments {segments : List String} {name : TableName}
    (h : ofSegments segments = .ok name) :
    name.segments = pieces segments ∧ ∀ p ∈ pieces segments, Text.isBlankText p = false := by
  unfold ofSegments at h
  split at h
  · cases h
  · split at h
    · cases h
    · rename_i hblank
      split at h
      · cases h
      · cases h
        exact ⟨rfl, by simpa using hblank⟩

/-- Reads a dotted path, quoted as a whole, by segment, or not at all. -/
def parse (text : String) : Except Invalid TableName :=
  match ofSegments ((Text.split '.' (unquote text)).map unquote) with
  | .ok name => .ok name
  | .error defect => .error ⟨text, defect⟩

/-! ## Parts -/

def text (t : TableName) : String := Text.join "." t.segments

instance : ToString TableName := ⟨text⟩

/-- A name is known by its text: the dots in it are those between the segments. -/
theorem text_injective : Function.Injective text := by
  intro a b h
  have hsplit : ∀ t : TableName, Text.split '.' t.text = t.segments := fun t =>
    Text.split_join rfl t.nonempty t.dotFree
  have hsegments : a.segments = b.segments := by rw [← hsplit a, ← hsplit b, h]
  cases a
  cases b
  cases hsegments
  rfl

/-- The last segment, the table's own name. -/
def shortName (t : TableName) : String := t.segments.getLast t.nonempty

def dataset (t : TableName) : Option String :=
  match t.segments with
  | [d, _] => some d
  | [_, d, _] => some d
  | _ => none

def project (t : TableName) : Option String :=
  match t.segments with
  | [p, _, _] => some p
  | _ => none

/-- A name with the dotted text `outer` in front. -/
def under (outer : String) (t : TableName) : TableName where
  segments := Text.split '.' outer ++ t.segments
  nonempty := by simp [Text.split_ne_nil]
  dotFree := by
    intro s hs
    rcases List.mem_append.1 hs with hs | hs
    · exact Text.not_mem_of_mem_split hs
    · exact t.dotFree s hs

/-- The longest form that a default project and dataset allow. A name is never shortened, and a
bare table takes a project only together with a dataset. -/
def qualify (project dataset : Option String) (t : TableName) : TableName :=
  match t.segments, project, dataset with
  | [_], some p, some d => (t.under d).under p
  | [_], none, some d => t.under d
  | [_, _], some p, _ => t.under p
  | _, _, _ => t

theorem shortName_under (outer : String) (t : TableName) :
    (t.under outer).shortName = t.shortName := by
  simp only [shortName, under]
  rw [List.getLast_append_of_ne_nil _ t.nonempty]

theorem shortName_qualify (project dataset : Option String) (t : TableName) :
    (t.qualify project dataset).shortName = t.shortName := by
  unfold qualify
  split <;> simp only [shortName_under]

/-- A set of table names, in the order of their texts. -/
abbrev Set := SortedBy text

end TableName

/-- The project and dataset that complete table names written without them. -/
structure TableDefaults where
  project : Option String := none
  dataset : Option String := none
deriving DecidableEq

/-- The table a written path stands for; nothing if the path is no table name. -/
def TableDefaults.resolve (d : TableDefaults) (path : List String) : Option TableName :=
  match TableName.ofSegments path with
  | .ok name => some (name.qualify d.project d.dataset)
  | .error _ => none

end QueryLineage
