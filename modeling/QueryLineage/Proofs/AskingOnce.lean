import Mathlib.Data.List.Nodup
import QueryLineage.Metadata.Provider

/-!
# Asking once

Whoever asks a provider about tables notes the answers and goes by the notes from then on
(`askOnce`), by whatever names tables go there and however a name leads to an address. Two things
follow. If it is known what the provider has, it is known what every question comes to, as the
notes can say nothing else (`run_askOnce_of_notesOf`). And each name is put to the provider once, in
the order of the questions, as far as it leads to an address (`Logged`).
-/

namespace QueryLineage

variable {κ α σ : Type}

/-- What is known by name, where `f` is what is known by address. -/
def knownBy (key? : κ → Option TableKey) (f : TableKey → Option TableMetadata) (k : κ) :
    Option TableMetadata :=
  (key? k).bind f

theorem knownBy_of_unknown (key? : κ → Option TableKey) {f : TableKey → Option TableMetadata}
    (h : ∀ key, f key = none) (k : κ) : knownBy key? f k = none :=
  Option.bind_eq_none_iff.mpr fun key _ => h key

/-! ## Putting questions to a provider -/

namespace Provider

/-- The metadata at the address a name leads to, if it leads to one and the provider has any. -/
def metadata? (key? : κ → Option TableKey) (p : Provider σ) (k : κ) :
    StateM σ (Option TableMetadata) :=
  match key? k with
  | some key => do return (← p key).toOption
  | none => pure none

/-- The provider has this metadata, whatever its state. Why it has no other does not matter. -/
def Has (p : Provider σ) (f : TableKey → Option TableMetadata) : Prop :=
  ∀ key s, ((p key).run s).1.toOption = f key

theorem Has.run_metadata? {p : Provider σ} {f : TableKey → Option TableMetadata} (h : p.Has f)
    (key? : κ → Option TableKey) (k : κ) (s : σ) :
    ((p.metadata? key? k).run s).1 = knownBy key? f k := by
  unfold metadata? knownBy
  cases key? k with
  | none => rfl
  | some key => exact h key s

theorem run_metadata?_noting (p : Provider σ) (key? : κ → Option TableKey) (k : κ)
    (s : σ × List TableKey) :
    ((p.noting.metadata? key? k).run s).2.2 = s.2 ++ (key? k).toList := by
  unfold metadata?
  cases key? k with
  | none => exact (List.append_nil _).symm
  | some key => rfl

end Provider

/-! ## Notes -/

/-- The notes say what is known. -/
def NotesOf (know : κ → α) (notes : List (κ × α)) : Prop := ∀ e ∈ notes, e.2 = know e.1

/-- The names in the notes have been asked about, each once and all of them as `T` says, and their
addresses have been seen in that order, after `before`. -/
structure Logged (key? : κ → Option TableKey) (T : κ → Prop) (before : List TableKey)
    (state : List (κ × α) × σ × List TableKey) : Prop where
  nodup : (state.1.map Prod.fst).Nodup
  forall_mem : ∀ k ∈ state.1.map Prod.fst, T k
  seen_eq : state.2.2 = before ++ (state.1.map Prod.fst).reverse.filterMap key?

theorem Logged.start (key? : κ → Option TableKey) (T : κ → Prop) (state : σ × List TableKey) :
    Logged key? T state.2 (([] : List (κ × α)), state) where
  nodup := List.nodup_nil
  forall_mem := by simp
  seen_eq := by simp

theorem Logged.exists_asked {key? : κ → Option TableKey} {T : κ → Prop} {before : List TableKey}
    {state : List (κ × α) × σ × List TableKey} (h : Logged key? T before state) :
    ∃ asked : List κ, asked.Nodup ∧ (∀ k ∈ asked, T k)
      ∧ state.2.2 = before ++ asked.filterMap key? :=
  ⟨(state.1.map Prod.fst).reverse, List.nodup_reverse.mpr h.nodup,
    fun k hk => h.forall_mem k (List.mem_reverse.mp hk), h.seen_eq⟩

/-! ## Questions -/

variable [BEq κ] [LawfulBEq κ]

/-- The answer in the notes, else the answer to the question, which is noted. The latest note comes
first. -/
def askOnce (ask : κ → StateM σ α) (k : κ) : StateM (List (κ × α) × σ) α := fun (notes, s) =>
  match notes.lookup k with
  | some known => (known, notes, s)
  | none =>
    let (found, s) := (ask k).run s
    (found, (k, found) :: notes, s)

/-- The two ways a question goes: the answer is in the notes, or it is asked for and noted. All that
is proved about questions starts from these two cases. -/
theorem run_askOnce_cases (ask : κ → StateM σ α) (k : κ) (notes : List (κ × α)) (s : σ) :
    (∃ known, (k, known) ∈ notes ∧ (askOnce ask k).run (notes, s) = (known, notes, s))
      ∨ k ∉ notes.map Prod.fst
        ∧ (askOnce ask k).run (notes, s)
          = (((ask k).run s).1, (k, ((ask k).run s).1) :: notes, ((ask k).run s).2) := by
  have hrun : (askOnce ask k).run (notes, s) = match notes.lookup k with
      | some known => (known, notes, s)
      | none => (((ask k).run s).1, (k, ((ask k).run s).1) :: notes, ((ask k).run s).2) := rfl
  rw [hrun]
  cases hnoted : notes.lookup k with
  | some known =>
      obtain ⟨before, after, rfl, -⟩ := List.lookup_eq_some_iff.mp hnoted
      exact .inl ⟨known, by simp, rfl⟩
  | none =>
      refine .inr ⟨fun hmem => ?_, rfl⟩
      obtain ⟨e, he, rfl⟩ := List.mem_map.mp hmem
      simpa using List.lookup_eq_none_iff.mp hnoted e he

/-- What is known is the answer, whether it was noted or is given now. -/
theorem run_askOnce_of_notesOf {ask : κ → StateM σ α} {know : κ → α}
    (hask : ∀ k s, ((ask k).run s).1 = know k) {notes : List (κ × α)} (h : NotesOf know notes)
    (k : κ) (s : σ) :
    ((askOnce ask k).run (notes, s)).1 = know k
      ∧ NotesOf know ((askOnce ask k).run (notes, s)).2.1 := by
  rcases run_askOnce_cases ask k notes s with ⟨known, hnoted, hrun⟩ | ⟨-, hrun⟩
  · rw [hrun]
    exact ⟨h _ hnoted, h⟩
  · rw [hrun]
    exact ⟨hask k s, List.forall_mem_cons.mpr ⟨hask k s, h⟩⟩

/-- One question keeps the log: a known answer changes nothing, and a new one comes to the end of
the log as its question comes to the front of the notes. -/
theorem Logged.askOnce {key? : κ → Option TableKey} {T : κ → Prop} {before : List TableKey}
    {ask : κ → StateM (σ × List TableKey) α}
    (hask : ∀ k s, ((ask k).run s).2.2 = s.2 ++ (key? k).toList)
    {state : List (κ × α) × σ × List TableKey} (h : Logged key? T before state) {k : κ}
    (hk : T k) : Logged key? T before ((askOnce ask k).run state).2 := by
  obtain ⟨notes, s⟩ := state
  rcases run_askOnce_cases ask k notes s with ⟨known, -, hrun⟩ | ⟨hnew, hrun⟩
  · rw [hrun]
    exact h
  · rw [hrun]
    constructor
    case nodup => exact List.nodup_cons.mpr ⟨hnew, h.nodup⟩
    case forall_mem => exact List.forall_mem_cons.mpr ⟨hk, h.forall_mem⟩
    case seen_eq =>
      have hlast : (key? k).toList = [k].filterMap key? := by
        cases hkey : key? k <;> simp [hkey]
      calc ((ask k).run s).2.2
          = before ++ (notes.map Prod.fst).reverse.filterMap key? ++ [k].filterMap key? := by
            rw [hask, hlast, ← h.seen_eq]
        _ = before ++ ((k :: notes.map Prod.fst).reverse).filterMap key? := by
            rw [List.reverse_cons, List.filterMap_append, List.append_assoc]

end QueryLineage
