import QueryLineage.Proofs.AliasPrecedence
import QueryLineage.Proofs.ReadingNames

/-!
# Names with quotation marks

Each segment of a name can be written bare or between quotation marks, and a bare path can stand
between marks as a whole. Taking off one pair of marks gives back what they enclose
(`unquote_enclose`), so both ways are read, but not every mixture of them: where the first and the
last of several segments stand between marks of one kind, the text looks like a path that is
enclosed as a whole. The outer two of the four marks are taken off then, and the inner two become
part of the name (`LooksEnclosed`).
-/

namespace QueryLineage

namespace Text

/-! ## The ends of joined texts -/

theorem join_concat_append (sep s x : String) (init : List String) :
    join sep (init ++ [s ++ x]) = join sep (init ++ [s]) ++ x := by
  by_cases hinit : init = []
  · simp [hinit, join]
  · rw [join, join, String.intercalate_append_of_ne_nil hinit (by simp),
      String.intercalate_append_of_ne_nil hinit (by simp), String.intercalate_singleton,
      String.intercalate_singleton, ← String.append_assoc]

/-- The characters that a text starts and ends with, neither of them blank. -/
structure HasEnds (s : String) (c d : Char) : Prop where
  first : s.toList.head? = some c
  last : s.toList.getLast? = some d
  firstSolid : isBlank c = false
  lastSolid : isBlank d = false

theorem HasEnds.isBlankText {s : String} {c d : Char} (h : HasEnds s c d) :
    isBlankText s = false := by
  rw [Text.isBlankText, List.all_eq_false]
  exact ⟨c, List.mem_of_mem_head? h.first, by simp [h.firstSolid]⟩

theorem HasEnds.join {s t : String} {c d c' d' : Char} (hs : HasEnds s c d)
    (ht : HasEnds t c' d') (sep : String) (middle : List String) :
    HasEnds (Text.join sep (s :: (middle ++ [t]))) c d' := by
  have hfront : Text.join sep (s :: (middle ++ [t]))
      = s ++ Text.join sep ("" :: (middle ++ [t])) := by
    rw [Text.join, Text.join, ← String.intercalate_cons_append, String.append_empty]
  have hback : Text.join sep (s :: (middle ++ [t]))
      = Text.join sep (s :: (middle ++ [""])) ++ t := by
    rw [← List.cons_append, ← List.cons_append, ← join_concat_append, String.empty_append]
  refine ⟨?_, ?_, hs.firstSolid, ht.lastSolid⟩
  · rw [hfront, String.toList_append, List.head?_append, hs.first, Option.some_or]
  · rw [hback, String.toList_append, List.getLast?_append, ht.last, Option.some_or]

end Text

namespace TableName

/-! ## Quotation marks -/

/-- The kinds of marks that names are quoted with. -/
inductive QuoteMark
  | backtick | doubleQuote
deriving DecidableEq

namespace QuoteMark

def char : QuoteMark → Char
  | backtick => '\x60'
  | doubleQuote => '\x22'

def text (q : QuoteMark) : String := String.singleton q.char

theorem toList_text (q : QuoteMark) : q.text.toList = [q.char] :=
  String.toList_singleton q.char

theorem char_eq (q : QuoteMark) : q.char = '\x60' ∨ q.char = '\x22' := by
  cases q with
  | backtick => exact .inl rfl
  | doubleQuote => exact .inr rfl

theorem isBlank_char (q : QuoteMark) : Text.isBlank q.char = false := by
  cases q <;> decide

theorem char_ne_dot (q : QuoteMark) : q.char ≠ '.' := by
  cases q <;> decide

theorem char_injective : Function.Injective char := by
  intro q r
  cases q <;> cases r <;> decide

end QuoteMark

/-- The text between two marks, or as it is. -/
def enclose : Option QuoteMark → String → String
  | some q, s => q.text ++ s ++ q.text
  | none, s => s

/-- A segment of a name and the marks around it. -/
structure WrittenSegment where
  name : String
  mark : Option QuoteMark
deriving DecidableEq

namespace WrittenSegment

def text (w : WrittenSegment) : String := enclose w.mark w.name

theorem toList_text_of_mark (name : String) (q : QuoteMark) :
    (text ⟨name, some q⟩).toList = q.char :: (name.toList ++ [q.char]) := by
  simp [text, enclose, q.toList_text]

end WrittenSegment

/-- The path as it is written. -/
def writtenText (ws : List WrittenSegment) : String := Text.join "." (ws.map WrittenSegment.text)

/-- Of several segments the first and the last stand between marks of one kind. -/
def LooksEnclosed (q : QuoteMark) (ws : List WrittenSegment) : Prop :=
  ∃ a middle b, ws = ⟨a, some q⟩ :: (middle ++ [⟨b, some q⟩])

/-! ## What is taken off -/

theorem unquote_enclose (q : QuoteMark) (s : String) : unquote (enclose (some q) s) = s := by
  have hchars : (enclose (some q) s).toList = q.char :: (s.toList ++ [q.char]) :=
    WrittenSegment.toList_text_of_mark s q
  have hstrip : Text.stripBoth Text.isBlank (q.char :: (s.toList ++ [q.char]))
      = q.char :: (s.toList ++ [q.char]) := by
    rw [Text.stripBoth_eq_self_iff, List.head?_cons, ← List.cons_append, List.getLast?_concat]
    simp [q.isBlank_char]
  rw [unquote, hchars, unquoteChars, hstrip]
  simp [q.char_eq]

/-- Nothing is taken off a text that does not stand between marks of one kind. The reader looks at
the first and the last character only, once there are no blanks before or after them. -/
theorem unquote_of_ends {s : String} {c d : Char} (h : Text.HasEnds s c d)
    (hopen : ∀ q : QuoteMark, c = q.char → d ≠ q.char) : unquote s = s := by
  rw [unquote_eq_self_iff]
  refine ⟨by simp [h.first, h.firstSolid], by simp [h.last, h.lastSolid], ?_⟩
  intro mark inner hmark hmarked
  have hc : c = mark := by
    simpa [hmarked] using h.first.symm
  have hd : d = mark := by
    have hlast := h.last
    rw [hmarked, ← List.cons_append, List.getLast?_concat] at hlast
    exact (Option.some.inj hlast).symm
  rcases hmark with rfl | rfl
  · exact hopen .backtick hc hd
  · exact hopen .doubleQuote hc hd

end TableName

instance : DecidablePred PlainName := fun name =>
  decidable_of_iff
    (name ≠ "" ∧ '.' ∉ name.toList ∧ '\x60' ∉ name.toList ∧ '\x22' ∉ name.toList
      ∧ Text.trim name = name)
    ⟨fun ⟨hne, hdot, hbacktick, hquote, htrim⟩ => ⟨hne, hdot, hbacktick, hquote, htrim⟩,
      fun h => ⟨h.ne_empty, h.no_dot, h.no_backtick, h.no_quote, h.trim_eq⟩⟩

open TableName in
theorem PlainName.exists_ends {name : String} (h : PlainName name) :
    ∃ c d, Text.HasEnds name c d ∧ ∀ q : QuoteMark, c ≠ q.char ∧ d ≠ q.char := by
  have hne : name.toList ≠ [] := by simpa using h.ne_empty
  have hbare := unquote_eq_self_iff.mp (Relations.unquote_of_plain h)
  have hfirst := List.head?_eq_some_head hne
  have hlast := List.getLast?_eq_some_getLast hne
  have hmarks : ∀ c ∈ name.toList, ∀ q : QuoteMark, c ≠ q.char := by
    intro c hc q
    rcases q.char_eq with hq | hq
    · exact hq ▸ (h.ne_quotes hc).1
    · exact hq ▸ (h.ne_quotes hc).2
  exact ⟨_, _, ⟨hfirst, hlast, hbare.first _ hfirst, hbare.last _ hlast⟩, fun q =>
    ⟨hmarks _ (List.head_mem hne) q, hmarks _ (List.getLast_mem hne) q⟩⟩

namespace TableName

/-! ## The pieces of a path -/

/-- A segment as it is written starts or ends with a mark only if it stands between two. -/
theorem WrittenSegment.exists_ends {w : WrittenSegment} (h : PlainName w.name) :
    ∃ c d, Text.HasEnds w.text c d
      ∧ ∀ q : QuoteMark, (c = q.char → w.mark = some q) ∧ (d = q.char → w.mark = some q) := by
  rcases w with ⟨name, _ | r⟩
  · obtain ⟨c, d, hends, hmarks⟩ := h.exists_ends
    exact ⟨c, d, hends, fun q =>
      ⟨fun hc => absurd hc (hmarks q).1, fun hd => absurd hd (hmarks q).2⟩⟩
  · have hinj : ∀ q : QuoteMark, r.char = q.char → some r = some q := fun q hq =>
      congrArg some (QuoteMark.char_injective hq)
    refine ⟨r.char, r.char, ⟨?_, ?_, r.isBlank_char, r.isBlank_char⟩, fun q => ⟨hinj q, hinj q⟩⟩
    · rw [toList_text_of_mark, List.head?_cons]
    · rw [toList_text_of_mark, ← List.cons_append, List.getLast?_concat]

/-- What is left of a piece between dots when marks are taken off it, as is done twice. -/
structure ReadsAs (piece segment : String) : Prop where
  dotFree : '.' ∉ piece.toList
  unquoted : unquote (unquote piece) = segment
  solid : Text.isBlankText segment = false

theorem unquote_text {w : WrittenSegment} (h : PlainName w.name) : unquote w.text = w.name := by
  rcases w with ⟨name, _ | q⟩
  · exact Relations.unquote_of_plain h
  · exact unquote_enclose q name

theorem readsAs_text {w : WrittenSegment} (h : PlainName w.name) : ReadsAs w.text w.name := by
  obtain ⟨_, _, hends, -⟩ := h.exists_ends
  refine ⟨?_, by rw [unquote_text h, Relations.unquote_of_plain h], hends.isBlankText⟩
  rcases w with ⟨name, _ | q⟩
  · exact h.no_dot
  · simp [WrittenSegment.toList_text_of_mark, q.char_ne_dot.symm, h.no_dot]

theorem readsAs_self {s : String} {c d : Char} (h : Text.HasEnds s c d)
    (hopen : ∀ q : QuoteMark, c = q.char → d ≠ q.char) (hdot : '.' ∉ s.toList) :
    ReadsAs s s := by
  have hstays := unquote_of_ends h hopen
  exact ⟨hdot, by rw [hstays, hstays], h.isBlankText⟩

/-- A mark at one end alone stays, as the plain name has none at its other end. -/
theorem readsAs_append_mark {a : String} (h : PlainName a) (q : QuoteMark) :
    ReadsAs (a ++ q.text) (a ++ q.text) := by
  obtain ⟨c, _, hends, hmarks⟩ := h.exists_ends
  have hends' : Text.HasEnds (a ++ q.text) c q.char := by
    refine ⟨?_, ?_, hends.firstSolid, q.isBlank_char⟩
    · rw [String.toList_append, List.head?_append, hends.first, Option.some_or]
    · rw [String.toList_append, q.toList_text, List.getLast?_concat]
  refine readsAs_self hends' (fun r hr => absurd hr (hmarks r).1) ?_
  simp [q.toList_text, q.char_ne_dot.symm, h.no_dot]

theorem readsAs_mark_append {b : String} (h : PlainName b) (q : QuoteMark) :
    ReadsAs (q.text ++ b) (q.text ++ b) := by
  obtain ⟨_, d, hends, hmarks⟩ := h.exists_ends
  have hends' : Text.HasEnds (q.text ++ b) q.char d := by
    refine ⟨?_, ?_, q.isBlank_char, hends.lastSolid⟩
    · rw [String.toList_append, q.toList_text, List.head?_append, List.head?_cons, Option.some_or]
    · rw [String.toList_append, List.getLast?_append, hends.last, Option.some_or]
  refine readsAs_self hends' (fun r _ => (hmarks r).2) ?_
  simp [q.toList_text, q.char_ne_dot.symm, h.no_dot]

/-- A text is read as what its pieces are read as, once marks are taken off the whole. As no piece
has a dot, it is split into these pieces and no others. -/
theorem segments_parse {text : String} {parts found : List String}
    (htext : unquote text = Text.join "." parts) (hne : parts ≠ [])
    (hshort : parts.length ≤ maxSegments) (hparts : List.Forall₂ ReadsAs parts found) :
    (parse text).map segments = .ok found := by
  obtain ⟨hdotFree, hunquoted⟩ : (∀ p ∈ parts, '.' ∉ p.toList)
      ∧ List.Forall₂ (fun p s => unquote (unquote p) = s) parts found :=
    (List.forall₂_and_left _ _).mp (hparts.imp fun _ _ h => ⟨h.dotFree, h.unquoted⟩)
  have hfree : ∀ s ∈ found, Text.isBlankText s = false :=
    ((List.forall₂_and_left _ _).mp (hparts.flip.imp fun _ _ h => ⟨h.solid, trivial⟩)).1
  have hfound : pieces (parts.map unquote) = found := by
    rw [pieces_of_dotFree, List.map_map]
    · rw [← List.forall₂_eq_eq_eq, List.forall₂_map_left_iff]
      exact hunquoted
    · intro s hs hdot
      obtain ⟨p, hp, rfl⟩ := List.mem_map.mp hs
      exact hdotFree p hp ((unquote_sublist p).mem hdot)
  have hsome : pieces (parts.map unquote) ≠ [] := by
    rw [hfound]
    rintro rfl
    exact hne (List.forall₂_nil_right_iff.mp hparts)
  have hsolid : ¬(pieces (parts.map unquote)).any Text.isBlankText = true := by
    simpa [hfound] using hfree
  have hlength : ¬maxSegments < (pieces (parts.map unquote)).length := by
    rw [hfound, ← hparts.length_eq]
    exact Nat.not_lt.mpr hshort
  rw [parse, htext, Text.split_join rfl hne hdotFree, ofSegments, dif_neg hsome, if_neg hsolid,
    if_neg hlength]
  exact congrArg Except.ok hfound

/-! ## Whole paths -/

section Paths

variable {ws : List WrittenSegment}

/-- Nothing is taken off several segments, unless they look enclosed. The text starts as the first
segment does and ends as the last one does, and these have marks at their ends only if they stand
between two. -/
theorem unquote_writtenText {u v : WrittenSegment} {middle : List WrittenSegment}
    (hws : ws = u :: (middle ++ [v])) (hplain : ∀ w ∈ ws, PlainName w.name)
    (hopen : ∀ q, ¬LooksEnclosed q ws) : unquote (writtenText ws) = writtenText ws := by
  have hu : PlainName u.name := hplain u (by simp [hws])
  have hv : PlainName v.name := hplain v (by simp [hws])
  obtain ⟨c, _, hends, hmark⟩ := WrittenSegment.exists_ends hu
  obtain ⟨_, d, hends', hmark'⟩ := WrittenSegment.exists_ends hv
  have hboth := hends.join hends' "." (middle.map WrittenSegment.text)
  have htext : writtenText ws
      = Text.join "." (u.text :: (middle.map WrittenSegment.text ++ [v.text])) := by
    rw [writtenText, hws, List.map_cons, List.map_append, List.map_singleton]
  rw [htext]
  refine unquote_of_ends hboth fun q hc hd => hopen q ?_
  have hu' : u = ⟨u.name, some q⟩ := by rw [← (hmark q).1 hc]
  have hv' : v = ⟨v.name, some q⟩ := by rw [← (hmark' q).2 hd]
  exact ⟨u.name, middle, v.name, by rw [hws, ← hu', ← hv']⟩

/-- The outer two of the marks enclose everything, and the inner two stay. -/
theorem writtenText_of_looksEnclosed (q : QuoteMark) (a b : String)
    (middle : List WrittenSegment) :
    writtenText (⟨a, some q⟩ :: (middle ++ [⟨b, some q⟩]))
      = enclose (some q) (Text.join "."
        ((a ++ q.text) :: (middle.map WrittenSegment.text ++ [q.text ++ b]))) := by
  have hfirst : WrittenSegment.text ⟨a, some q⟩ = q.text ++ (a ++ q.text) := String.append_assoc
  have hlast : WrittenSegment.text ⟨b, some q⟩ = (q.text ++ b) ++ q.text := rfl
  rw [writtenText, List.map_cons, List.map_append, List.map_singleton, hfirst, hlast, Text.join,
    String.intercalate_cons_append, ← Text.join, ← List.cons_append, Text.join_concat_append,
    List.cons_append, ← String.append_assoc]
  rfl

theorem segments_parse_of_unquote (hne : ws ≠ []) (hshort : ws.length ≤ maxSegments)
    (hplain : ∀ w ∈ ws, PlainName w.name) {text : String} (htext : unquote text = writtenText ws) :
    (parse text).map segments = .ok (ws.map (·.name)) := by
  refine segments_parse htext (by simpa using hne) (by simpa using hshort) ?_
  rw [List.forall₂_map_left_iff, List.forall₂_map_right_iff, List.forall₂_same]
  exact fun w hw => readsAs_text (hplain w hw)

/-- A path is read as its bare segments, unless it looks enclosed. A single segment is the case of
its own: the marks around it are those around the whole. -/
theorem segments_parse_of_not_looksEnclosed (hne : ws ≠ []) (hshort : ws.length ≤ maxSegments)
    (hplain : ∀ w ∈ ws, PlainName w.name) (hopen : ∀ q, ¬LooksEnclosed q ws) :
    (parse (writtenText ws)).map segments = .ok (ws.map (·.name)) := by
  obtain ⟨u, rest, hws⟩ := List.exists_cons_of_ne_nil hne
  rcases List.eq_nil_or_concat' rest with hrest | ⟨middle, v, hrest⟩
  · -- The marks around one segment alone are those around the whole.
    have htext : unquote (writtenText ws) = writtenText [⟨u.name, none⟩] := by
      have hu : PlainName u.name := hplain u (by simp [hws])
      rw [hws, hrest, writtenText, writtenText, List.map_singleton, List.map_singleton, Text.join,
        Text.join, String.intercalate_singleton, String.intercalate_singleton]
      exact unquote_text hu
    have hread := segments_parse_of_unquote (List.cons_ne_nil _ []) (Nat.le_add_left 1 2)
      (by simpa [hws] using hplain u) htext
    rw [hread, hws, hrest]
    rfl
  · exact segments_parse_of_unquote hne hshort hplain
      (unquote_writtenText (hrest ▸ hws) hplain hopen)

theorem segments_parse_of_looksEnclosed {q : QuoteMark} {a b : String}
    {middle : List WrittenSegment} (hshort : middle.length + 2 ≤ maxSegments)
    (ha : PlainName a) (hb : PlainName b) (hmiddle : ∀ w ∈ middle, PlainName w.name) :
    (parse (writtenText (⟨a, some q⟩ :: (middle ++ [⟨b, some q⟩])))).map segments
      = .ok ((a ++ q.text) :: (middle.map (·.name) ++ [q.text ++ b])) := by
  have htext := unquote_enclose q (Text.join "."
    ((a ++ q.text) :: (middle.map WrittenSegment.text ++ [q.text ++ b])))
  rw [← writtenText_of_looksEnclosed] at htext
  have hlength : ((a ++ q.text) :: (middle.map WrittenSegment.text ++ [q.text ++ b])).length
      = middle.length + 2 := by
    rw [List.length_cons, List.length_append, List.length_map, List.length_singleton]
  refine segments_parse htext (List.cons_ne_nil _ _) (hlength ▸ hshort) ?_
  refine .cons (readsAs_append_mark ha q) (List.rel_append ?_ ?_)
  · rw [List.forall₂_map_left_iff, List.forall₂_map_right_iff, List.forall₂_same]
    exact fun w hw => readsAs_text (hmiddle w hw)
  · exact .cons (readsAs_mark_append hb q) .nil

end Paths

/-- **Reading names with quotation marks.** One to three plain segments, each bare or between marks,
are read as the bare segments, unless the first and the last stand between marks of one kind: then
the inner two of these marks become part of the name. A bare path between marks as a whole is always
read as its segments. The reader takes marks off the whole before it looks for dots; so it comes
down to which marks stand at the two ends of the text. -/
theorem parse_writtenText {ws : List WrittenSegment} (hne : ws ≠ [])
    (hshort : ws.length ≤ maxSegments) (hplain : ∀ w ∈ ws, PlainName w.name) :
    ((parse (writtenText ws)).map segments = .ok (ws.map (·.name)) ↔ ∀ q, ¬LooksEnclosed q ws)
      ∧ (∀ q a middle b, ws = ⟨a, some q⟩ :: (middle ++ [⟨b, some q⟩]) →
        (parse (writtenText ws)).map segments
          = .ok ((a ++ q.text) :: (middle.map (·.name) ++ [q.text ++ b])))
      ∧ ∀ q, (parse (enclose (some q) (Text.join "." (ws.map (·.name))))).map segments
        = .ok (ws.map (·.name)) := by
  have henclosed : ∀ q a middle b, ws = ⟨a, some q⟩ :: (middle ++ [⟨b, some q⟩]) →
      (parse (writtenText ws)).map segments
        = .ok ((a ++ q.text) :: (middle.map (·.name) ++ [q.text ++ b])) := by
    rintro q a middle b rfl
    rw [List.length_cons, List.length_append, List.length_singleton] at hshort
    refine segments_parse_of_looksEnclosed hshort ?_ ?_ fun w hw => ?_
    · exact hplain ⟨a, some q⟩ (by simp)
    · exact hplain ⟨b, some q⟩ (by simp)
    · exact hplain w (by simp [hw])
  refine ⟨⟨fun hread q henc => ?_, segments_parse_of_not_looksEnclosed hne hshort hplain⟩,
    henclosed, fun q => ?_⟩
  · obtain ⟨a, middle, b, hws⟩ := henc
    have hfirst := (henclosed q a middle b hws).symm.trans hread
    rw [hws, List.map_cons, Except.ok.injEq, List.cons.injEq] at hfirst
    have hlength := congrArg (fun s => s.toList.length) hfirst.1
    simp [q.toList_text] at hlength
  · have hbare : Text.join "." (ws.map (·.name))
        = writtenText (ws.map fun w => ⟨w.name, none⟩) := by
      rw [writtenText, List.map_map]
      rfl
    have hread := segments_parse_of_unquote (by simpa using hne) (by simpa using hshort)
      (by simpa using hplain) ((unquote_enclose q _).trans hbare)
    rw [hread, List.map_map]
    rfl

/-- The path of a table with every segment but the last between backticks. -/
def partlyQuoted : List WrittenSegment :=
  [⟨"acme", some .backtick⟩, ⟨"shop", some .backtick⟩, ⟨"orders", none⟩]

theorem parse_writtenText_partlyQuoted :
    writtenText partlyQuoted = "`acme`.`shop`.orders"
      ∧ (parse "`acme`.`shop`.orders").map segments = .ok ["acme", "shop", "orders"]
      ∧ (parse "`acme.shop.orders`").map segments = .ok ["acme", "shop", "orders"] := by
  have hplain : ∀ w ∈ partlyQuoted, PlainName w.name := by decide +kernel
  have hopen : ∀ q, ¬LooksEnclosed q partlyQuoted := by
    rintro q ⟨a, middle, b, hws⟩
    have hlast := congrArg List.getLast? hws
    rw [← List.cons_append, List.getLast?_concat] at hlast
    cases hlast
  have h := parse_writtenText (List.cons_ne_nil _ _) (by decide) hplain
  exact ⟨by decide +kernel, h.1.mpr hopen, h.2.2 .backtick⟩

/-- A path with all its segments between backticks keeps the inner marks of the first and the
last. -/
theorem segments_of_outerMarks :
    (∀ name ∈ ["acme", "shop", "orders"], PlainName name)
      ∧ writtenText [⟨"acme", some .backtick⟩, ⟨"shop", some .backtick⟩, ⟨"orders", some .backtick⟩]
        = "`acme`.`shop`.`orders`"
      ∧ (parse "`acme`.`shop`.`orders`").map segments = .ok ["acme`", "shop", "`orders"]
      ∧ (parse "acme.shop.orders").map segments = .ok ["acme", "shop", "orders"] := by
  decide +kernel

end TableName

end QueryLineage
