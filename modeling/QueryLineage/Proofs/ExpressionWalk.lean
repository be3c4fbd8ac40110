import Mathlib.Data.List.Infix
import QueryLineage.Proofs.SyntaxNodes

/-!
# Walking an expression

What is found in an expression can be told without looking at its structure, from the visits of a
walk alone. The walk meets every expression before its parts, and enters and leaves every query. A
`Collector` counts the queries it is in, and takes down columns and queries only while it is in
none. At a call it marks the places of the arguments that name a part of a date, and what it comes
to at a marked place is no column.

`Expr.collected_eq_findings` says that the collector finds what `Expr.findings` lists. Two facts
carry the induction: in a query nothing changes, as the query is left as often as it is entered
(`Collector.run_balanced`), and a walk marks and reads only the places of the part it walks, so
that the walks of two parts do not meddle with each other (`Collects.append`).
-/

namespace QueryLineage

namespace Sql

/-! ## The walk -/

/-- Where a piece of syntax stands: how to get there from where the walk began, the last step
first. -/
abbrev Place := List Nat

/-- What a walk comes to. -/
inductive Visit
  | expr (place : Place) (e : Expr)
  | enter (q : Query)
  | leave

mutual

/-- The visits of an expression at a place, its parts in the order they are visited in. -/
def Expr.walk (p : Place) : Expr → List Visit
  | .column first rest => [.expr p (.column first rest)]
  | .binary left op right =>
    .expr p (.binary left op right) :: (left.walk (0 :: p) ++ right.walk (1 :: p))
  | .nested inner => .expr p (.nested inner) :: inner.walk (0 :: p)
  | .subquery query => .expr p (.subquery query) :: query.walk (0 :: p)
  | .call name opening args closing groupOrder rest =>
    .expr p (.call name opening args closing groupOrder rest)
      :: (walkPieces (0 :: p) 0 opening ++ walkArguments (1 :: p) 0 args
        ++ (walkPieces (2 :: p) 0 closing ++ walkPieces (3 :: p) 0 rest
          ++ walkPieces (4 :: p) 0 groupOrder))
  | .trimming side characters text =>
    .expr p (.trimming side characters text)
      :: (text.walk (0 :: p) ++ characters.walk (1 :: p))
  | .form pieces => .expr p (.form pieces) :: walkPieces (0 :: p) 0 pieces

def Argument.walk (p : Place) : Argument → List Visit
  | .expr e => e.walk p
  | .other pieces => walkPieces p 0 pieces

def walkArguments (p : Place) (i : Nat) : List Argument → List Visit
  | [] => []
  | a :: rest => a.walk (i :: p) ++ walkArguments p (i + 1) rest

def Piece.walk (p : Place) : Piece → List Visit
  | .text _ => []
  | .expr e => e.walk p
  | .query q => q.walk p
  | .relation r => r.walk p

def walkPieces (p : Place) (i : Nat) : List Piece → List Visit
  | [] => []
  | piece :: rest => piece.walk (i :: p) ++ walkPieces p (i + 1) rest

def walkExprs (p : Place) (i : Nat) : List Expr → List Visit
  | [] => []
  | e :: rest => e.walk (i :: p) ++ walkExprs p (i + 1) rest

def Relation.walk (p : Place) : Relation → List Visit
  | .table _ afterName _ afterAlias =>
    walkPieces (0 :: p) 0 afterName ++ walkPieces (1 :: p) 0 afterAlias
  | .derived _ query _ afterAlias => query.walk (0 :: p) ++ walkPieces (1 :: p) 0 afterAlias
  | .joined item _ => item.walk p
  | .unnest items _ _ _ => walkExprs p 0 items
  | .form pieces => walkPieces p 0 pieces

def FromItem.walk (p : Place) : FromItem → List Visit
  | .mk relation joins => relation.walk (0 :: p) ++ walkJoins (1 :: p) 0 joins

def Join.walk (p : Place) : Join → List Visit
  | .conditioned _ relation condition => relation.walk (0 :: p) ++ condition.walk (1 :: p)
  | .matching _ relation _ => relation.walk p
  | .natural _ relation => relation.walk p
  | .unconditional _ relation => relation.walk p
  | .operator _ _ relation rest => relation.walk (0 :: p) ++ walkPieces (1 :: p) 0 rest

def walkJoins (p : Place) (i : Nat) : List Join → List Visit
  | [] => []
  | j :: rest => j.walk (i :: p) ++ walkJoins p (i + 1) rest

def walkFromItems (p : Place) (i : Nat) : List FromItem → List Visit
  | [] => []
  | item :: rest => item.walk (i :: p) ++ walkFromItems p (i + 1) rest

def SelectItem.walk (p : Place) : SelectItem → List Visit
  | .unnamed e => e.walk p
  | .aliased e _ => e.walk p
  | .wildcard pieces => walkPieces p 0 pieces

def walkSelectItems (p : Place) (i : Nat) : List SelectItem → List Visit
  | [] => []
  | item :: rest => item.walk (i :: p) ++ walkSelectItems p (i + 1) rest

def walkClause (p : Place) : Option Expr → List Visit
  | some e => e.walk p
  | none => []

def Body.walk (p : Place) : Body → List Visit
  | .select opening items sources condition groups _ having rest =>
    walkPieces (0 :: p) 0 opening ++ walkSelectItems (1 :: p) 0 items
      ++ walkFromItems (2 :: p) 0 sources ++ walkClause (3 :: p) condition
      ++ walkExprs (4 :: p) 0 groups ++ walkClause (5 :: p) having ++ walkPieces (6 :: p) 0 rest
  | .query q => q.walk p
  | .setOperation left _ right => left.walk (0 :: p) ++ right.walk (1 :: p)
  | .other pieces => walkPieces p 0 pieces

def Query.walk (p : Place) : Query → List Visit
  | .mk opening ctes body rest =>
    .enter (.mk opening ctes body rest)
      :: (walkCtes (0 :: p) 0 ctes ++ body.walk (1 :: p) ++ walkPieces (2 :: p) 0 rest
        ++ [.leave])

def Cte.walk (p : Place) : Cte → List Visit
  | .mk _ _ _ query => query.walk p

def walkCtes (p : Place) (i : Nat) : List Cte → List Visit
  | [] => []
  | c :: rest => c.walk (i :: p) ++ walkCtes p (i + 1) rest

end

/-! ## The collector -/

/-- Whether an argument names a part of a date; `partAllowed` tells whether it can. -/
def Argument.namesDatePart (partAllowed : Bool) : Argument → Bool
  | .expr e => partAllowed && e.isDatePart
  | .other _ => false

/-- The places of the arguments that name a part of a date; `partAllowed` tells whether the first
one can. -/
def datePartPlaces (partAllowed : Bool) (p : Place) (i : Nat) : List Argument → List Place
  | [] => []
  | a :: rest =>
    (if a.namesDatePart partAllowed then [i :: p] else []) ++ datePartPlaces true p (i + 1) rest

/-- What a walk has brought so far. -/
structure Collector where
  found : List Tree := []
  /-- How many queries the walk is in. -/
  depth : Nat := 0
  /-- The places that are known to name parts of dates. -/
  dateParts : List Place := []

namespace Collector

/-- Comes to an expression outside of queries. -/
def meet (c : Collector) (p : Place) : Expr → Collector
  | .column first rest =>
    if rest = [] ∧ p ∈ c.dateParts then c
    else { c with found := c.found ++ [columnNode first rest] }
  | .call name _ args _ _ _ =>
    { c with dateParts := c.dateParts ++ datePartPlaces (takesPartFirst name) (1 :: p) 0 args }
  | _ => c

def step (c : Collector) : Visit → Collector
  | .expr p e => if c.depth = 0 then c.meet p e else c
  | .enter q =>
    { c with
      found := if c.depth = 0 then c.found ++ [q.toTree] else c.found
      depth := c.depth + 1 }
  | .leave => { c with depth := c.depth - 1 }

def run (c : Collector) (visits : List Visit) : Collector := visits.foldl step c

theorem run_append (c : Collector) (vs ws : List Visit) : c.run (vs ++ ws) = (c.run vs).run ws :=
  List.foldl_append

end Collector

/-- What the collector finds on a walk of the expression. -/
def Expr.collected (e : Expr) : List Tree := (Collector.run {} (e.walk [])).found

/-! ## Queries are left as often as entered -/

/-- The visits between which every query that is entered is left. -/
inductive Balanced : List Visit → Prop
  | nil : Balanced []
  | expr {p : Place} {e : Expr} {vs : List Visit} (h : Balanced vs) : Balanced (.expr p e :: vs)
  | query {q : Query} {vs ws : List Visit} (hin : Balanced vs) (hafter : Balanced ws) :
      Balanced (.enter q :: (vs ++ .leave :: ws))

theorem Balanced.append {vs ws : List Visit} (hvs : Balanced vs) (hws : Balanced ws) :
    Balanced (vs ++ ws) := by
  induction hvs with
  | nil => exact hws
  | expr _ ih => exact .expr ih
  | query hin _ _ ih =>
      rw [List.cons_append, List.append_assoc, List.cons_append]
      exact .query hin ih

/-- In a query the collector stays as it is. By induction on the walk: it takes nothing down there,
and comes back to the depth it started from. -/
theorem Collector.run_balanced {c : Collector} {vs : List Visit} (h : Balanced vs)
    (hdepth : c.depth ≠ 0) : c.run vs = c := by
  induction h generalizing c with
  | nil => rfl
  | @expr p e vs _ ih =>
      have hstep : c.step (.expr p e) = c := if_neg hdepth
      rw [run, List.foldl_cons, hstep]
      exact ih hdepth
  | @query q vs ws _ _ ihin ihafter =>
      have henter : c.step (.enter q) = { c with depth := c.depth + 1 } := by
        simp [step, hdepth]
      have hleave : { c with depth := c.depth + 1 }.step .leave = c := by simp [step]
      have hin : run { c with depth := c.depth + 1 } vs = { c with depth := c.depth + 1 } :=
        ihin (Nat.succ_ne_zero _)
      rw [run, List.foldl_cons, henter]
      change run { c with depth := c.depth + 1 } (vs ++ .leave :: ws) = c
      rw [run_append, hin, run, List.foldl_cons, hleave]
      exact ihafter hdepth

mutual

theorem Expr.balanced_walk (p : Place) : (e : Expr) → Balanced (e.walk p)
  | .column _ _ => by rw [Expr.walk]; exact .expr .nil
  | .binary left _ right => by
      rw [Expr.walk]
      exact .expr ((left.balanced_walk _).append (right.balanced_walk _))
  | .nested inner => by rw [Expr.walk]; exact .expr (inner.balanced_walk _)
  | .subquery query => by rw [Expr.walk]; exact .expr (query.balanced_walk _)
  | .call _ opening args closing groupOrder rest => by
      rw [Expr.walk]
      exact .expr (((balanced_walkPieces _ _ opening).append
        (balanced_walkArguments _ _ args)).append
          (((balanced_walkPieces _ _ closing).append (balanced_walkPieces _ _ rest)).append
            (balanced_walkPieces _ _ groupOrder)))
  | .trimming _ characters text => by
      rw [Expr.walk]
      exact .expr ((text.balanced_walk _).append (characters.balanced_walk _))
  | .form pieces => by rw [Expr.walk]; exact .expr (balanced_walkPieces _ _ pieces)

theorem Argument.balanced_walk (p : Place) : (a : Argument) → Balanced (a.walk p)
  | .expr e => by rw [Argument.walk]; exact e.balanced_walk p
  | .other pieces => by rw [Argument.walk]; exact balanced_walkPieces _ _ pieces

theorem balanced_walkArguments (p : Place) (i : Nat) :
    (args : List Argument) → Balanced (walkArguments p i args)
  | [] => by rw [walkArguments]; exact .nil
  | a :: rest => by
      rw [walkArguments]
      exact (a.balanced_walk _).append (balanced_walkArguments _ _ rest)

theorem Piece.balanced_walk (p : Place) : (piece : Piece) → Balanced (piece.walk p)
  | .text _ => by rw [Piece.walk]; exact .nil
  | .expr e => by rw [Piece.walk]; exact e.balanced_walk p
  | .query q => by rw [Piece.walk]; exact q.balanced_walk p
  | .relation r => by rw [Piece.walk]; exact r.balanced_walk p

theorem balanced_walkPieces (p : Place) (i : Nat) :
    (pieces : List Piece) → Balanced (walkPieces p i pieces)
  | [] => by rw [walkPieces]; exact .nil
  | piece :: rest => by
      rw [walkPieces]
      exact (piece.balanced_walk _).append (balanced_walkPieces _ _ rest)

theorem balanced_walkExprs (p : Place) (i : Nat) :
    (es : List Expr) → Balanced (walkExprs p i es)
  | [] => by rw [walkExprs]; exact .nil
  | e :: rest => by
      rw [walkExprs]
      exact (e.balanced_walk _).append (balanced_walkExprs _ _ rest)

theorem Relation.balanced_walk (p : Place) : (r : Relation) → Balanced (r.walk p)
  | .table _ afterName _ afterAlias => by
      rw [Relation.walk]
      exact (balanced_walkPieces _ _ afterName).append (balanced_walkPieces _ _ afterAlias)
  | .derived _ query _ afterAlias => by
      rw [Relation.walk]
      exact (query.balanced_walk _).append (balanced_walkPieces _ _ afterAlias)
  | .joined item _ => by rw [Relation.walk]; exact item.balanced_walk p
  | .unnest items _ _ _ => by rw [Relation.walk]; exact balanced_walkExprs _ _ items
  | .form pieces => by rw [Relation.walk]; exact balanced_walkPieces _ _ pieces

theorem FromItem.balanced_walk (p : Place) : (item : FromItem) → Balanced (item.walk p)
  | .mk relation joins => by
      rw [FromItem.walk]
      exact (relation.balanced_walk _).append (balanced_walkJoins _ _ joins)

theorem Join.balanced_walk (p : Place) : (j : Join) → Balanced (j.walk p)
  | .conditioned _ relation condition => by
      rw [Join.walk]
      exact (relation.balanced_walk _).append (condition.balanced_walk _)
  | .matching _ relation _ => by rw [Join.walk]; exact relation.balanced_walk p
  | .natural _ relation => by rw [Join.walk]; exact relation.balanced_walk p
  | .unconditional _ relation => by rw [Join.walk]; exact relation.balanced_walk p
  | .operator _ _ relation rest => by
      rw [Join.walk]
      exact (relation.balanced_walk _).append (balanced_walkPieces _ _ rest)

theorem balanced_walkJoins (p : Place) (i : Nat) :
    (joins : List Join) → Balanced (walkJoins p i joins)
  | [] => by rw [walkJoins]; exact .nil
  | j :: rest => by
      rw [walkJoins]
      exact (j.balanced_walk _).append (balanced_walkJoins _ _ rest)

theorem balanced_walkFromItems (p : Place) (i : Nat) :
    (items : List FromItem) → Balanced (walkFromItems p i items)
  | [] => by rw [walkFromItems]; exact .nil
  | item :: rest => by
      rw [walkFromItems]
      exact (item.balanced_walk _).append (balanced_walkFromItems _ _ rest)

theorem SelectItem.balanced_walk (p : Place) : (item : SelectItem) → Balanced (item.walk p)
  | .unnamed e => by rw [SelectItem.walk]; exact e.balanced_walk p
  | .aliased e _ => by rw [SelectItem.walk]; exact e.balanced_walk p
  | .wildcard pieces => by rw [SelectItem.walk]; exact balanced_walkPieces _ _ pieces

theorem balanced_walkSelectItems (p : Place) (i : Nat) :
    (items : List SelectItem) → Balanced (walkSelectItems p i items)
  | [] => by rw [walkSelectItems]; exact .nil
  | item :: rest => by
      rw [walkSelectItems]
      exact (item.balanced_walk _).append (balanced_walkSelectItems _ _ rest)

theorem balanced_walkClause (p : Place) : (clause : Option Expr) → Balanced (walkClause p clause)
  | none => by rw [walkClause]; exact .nil
  | some e => by rw [walkClause]; exact e.balanced_walk p

theorem Body.balanced_walk (p : Place) : (b : Body) → Balanced (b.walk p)
  | .select opening items sources condition groups _ having rest => by
      rw [Body.walk]
      exact ((((((balanced_walkPieces _ _ opening).append
        (balanced_walkSelectItems _ _ items)).append (balanced_walkFromItems _ _ sources)).append
        (balanced_walkClause _ condition)).append (balanced_walkExprs _ _ groups)).append
        (balanced_walkClause _ having)).append (balanced_walkPieces _ _ rest)
  | .query q => by rw [Body.walk]; exact q.balanced_walk p
  | .setOperation left _ right => by
      rw [Body.walk]
      exact (left.balanced_walk _).append (right.balanced_walk _)
  | .other pieces => by rw [Body.walk]; exact balanced_walkPieces _ _ pieces

theorem Query.balanced_walk (p : Place) : (q : Query) → Balanced (q.walk p)
  | .mk _ ctes body rest => by
      rw [Query.walk]
      exact .query (((balanced_walkCtes _ _ ctes).append (body.balanced_walk _)).append
        (balanced_walkPieces _ _ rest)) .nil

theorem Cte.balanced_walk (p : Place) : (c : Cte) → Balanced (c.walk p)
  | .mk _ _ _ query => by rw [Cte.walk]; exact query.balanced_walk p

theorem balanced_walkCtes (p : Place) (i : Nat) :
    (ctes : List Cte) → Balanced (walkCtes p i ctes)
  | [] => by rw [walkCtes]; exact .nil
  | c :: rest => by
      rw [walkCtes]
      exact (c.balanced_walk _).append (balanced_walkCtes _ _ rest)

end

/-! ## Places -/

/-- At a place or in what stands there. -/
def Below (p x : Place) : Prop := p <:+ x

/-- Below a place, from some step on. -/
def BelowFrom (p : Place) (i : Nat) (x : Place) : Prop := ∃ j, i ≤ j ∧ Below (j :: p) x

section

variable {p x : Place} {i j : Nat}

theorem Below.of_cons (h : Below (i :: p) x) : Below p x := (List.suffix_cons i p).trans h

theorem BelowFrom.below (h : BelowFrom p i x) : Below p x := by
  obtain ⟨j, -, h⟩ := h
  exact h.of_cons

theorem Below.not_below (h : Below (i :: p) x) (hne : i ≠ j) : ¬Below (j :: p) x := fun hj => by
  have hsuffix : i :: p <:+ j :: p := List.suffix_of_suffix_length_le h hj (by simp)
  exact hne (List.cons.inj (hsuffix.eq_of_length (by simp))).1

theorem Below.belowFrom (h : Below (i :: p) x) : BelowFrom p i x := ⟨i, le_rfl, h⟩

theorem Below.not_belowFrom (h : Below (i :: p) x) (hlt : i < j) : ¬BelowFrom p j x := by
  rintro ⟨k, hk, hx⟩
  exact h.not_below (by omega) hx

theorem belowFrom_iff : BelowFrom p i x ↔ Below (i :: p) x ∨ BelowFrom p (i + 1) x := by
  constructor
  · rintro ⟨j, hj, hx⟩
    rcases Nat.eq_or_lt_of_le hj with rfl | hlt
    · exact .inl hx
    · exact .inr ⟨j, hlt, hx⟩
  · rintro (hx | ⟨j, hj, hx⟩)
    · exact ⟨i, le_rfl, hx⟩
    · exact ⟨j, by omega, hx⟩

theorem belowFrom_of_mem_datePartPlaces {partAllowed : Bool} {args : List Argument}
    (h : x ∈ datePartPlaces partAllowed p i args) : BelowFrom p i x := by
  induction args generalizing partAllowed i with
  | nil => simp [datePartPlaces] at h
  | cons a rest ih =>
      rw [datePartPlaces, List.mem_append] at h
      rw [belowFrom_iff]
      rcases h with h | h
      · split at h
        · exact .inl (List.mem_singleton.mp h ▸ List.suffix_rfl)
        · cases h
      · exact .inr (ih h)

end

/-! ## What a walk collects -/

/-- From this collector, the visits bring these trees and mark nothing outside of the region. -/
def Collector.Brings (c : Collector) (region : Place → Prop) (vs : List Visit) (ts : List Tree) :
    Prop :=
  ∃ marked, c.run vs = ⟨c.found ++ ts, 0, c.dateParts ++ marked⟩ ∧ ∀ x ∈ marked, region x

/-- The visits bring these trees, if no place of the region is marked before. -/
def Collects (region : Place → Prop) (vs : List Visit) (ts : List Tree) : Prop :=
  ∀ c : Collector, c.depth = 0 → (∀ x ∈ c.dateParts, ¬region x) → c.Brings region vs ts

section

variable {r s : Place → Prop} {vs ws : List Visit} {ts us : List Tree} {p : Place} {i j : Nat}

theorem Collector.Brings.mono {c : Collector} (h : c.Brings r vs ts) (hle : ∀ x, r x → s x) :
    c.Brings s vs ts := by
  obtain ⟨marked, hrun, hmarked⟩ := h
  exact ⟨marked, hrun, fun x hx => hle x (hmarked x hx)⟩

theorem Collects.mono (h : Collects r vs ts) (hle : ∀ x, r x → s x) : Collects s vs ts :=
  fun c hdepth hfree => (h c hdepth fun x hx hr => hfree x hx (hle x hr)).mono hle

theorem collects_nil : Collects r [] [] := fun c hdepth _ => by
  refine ⟨[], ?_, nofun⟩
  rw [List.append_nil, List.append_nil, ← hdepth]
  rfl

theorem Collector.Brings.append {c : Collector} (hvs : c.Brings r vs ts)
    (hws : ∀ marked : List Place, (∀ x ∈ marked, r x) →
      Collector.Brings ⟨c.found ++ ts, 0, c.dateParts ++ marked⟩ s ws us) :
    c.Brings (fun x => r x ∨ s x) (vs ++ ws) (ts ++ us) := by
  obtain ⟨marked, hrun, hmarked⟩ := hvs
  obtain ⟨marked', hrun', hmarked'⟩ := hws marked hmarked
  refine ⟨marked ++ marked', ?_, List.forall_mem_append.mpr
    ⟨fun x hx => .inl (hmarked x hx), fun x hx => .inr (hmarked' x hx)⟩⟩
  rw [Collector.run_append, hrun, hrun', List.append_assoc, List.append_assoc]

/-- Walks of separate regions do not meddle with each other: the first one marks places of its own
region only, so none that the second comes to. -/
theorem Collects.append (hvs : Collects r vs ts) (hws : Collects s ws us)
    (hseparate : ∀ x, r x → ¬s x) : Collects (fun x => r x ∨ s x) (vs ++ ws) (ts ++ us) := by
  intro c hdepth hfree
  refine (hvs c hdepth fun x hx hr => hfree x hx (.inl hr)).append fun marked hmarked => ?_
  refine hws _ rfl fun x hx hs => ?_
  rcases List.mem_append.mp hx with hx | hx
  · exact hfree x hx (.inr hs)
  · exact hseparate x (hmarked x hx) hs

theorem Collects.parts (hvs : Collects (Below (i :: p)) vs ts)
    (hws : Collects (Below (j :: p)) ws us) (hne : i ≠ j) :
    Collects (Below p) (vs ++ ws) (ts ++ us) :=
  (hvs.append hws fun _ hx => hx.not_below hne).mono fun _ hx => hx.elim Below.of_cons Below.of_cons

theorem Collects.next (hvs : Collects (Below (i :: p)) vs ts)
    (hws : Collects (BelowFrom p (i + 1)) ws us) :
    Collects (BelowFrom p i) (vs ++ ws) (ts ++ us) :=
  (hvs.append hws fun _ hx => hx.not_belowFrom i.lt_succ_self).mono fun _ hx => belowFrom_iff.mpr hx

theorem Collects.meet {e : Expr} (hvs : Collects r vs ts)
    (hmeet : ∀ c : Collector, c.meet p e = c) : Collects r (.expr p e :: vs) ts := by
  intro c hdepth hfree
  have hstep : c.step (.expr p e) = c := (if_pos hdepth).trans (hmeet c)
  obtain ⟨marked, hrun, hmarked⟩ := hvs c hdepth hfree
  refine ⟨marked, ?_, hmarked⟩
  rw [Collector.run, List.foldl_cons, hstep]
  exact hrun

/-- A query is taken down where it is entered, and no more comes of it, since the walk below it
leaves what it enters (`run_balanced`). -/
theorem collects_query (p : Place) (q : Query) : Collects r (q.walk p) [q.toTree] := by
  intro c hdepth _
  obtain ⟨opening, ctes, body, rest⟩ := q
  refine ⟨[], ?_, nofun⟩
  have hin := ((balanced_walkCtes (0 :: p) 0 ctes).append (body.balanced_walk (1 :: p))).append
    (balanced_walkPieces (2 :: p) 0 rest)
  rw [Query.walk, Collector.run, List.foldl_cons]
  -- Inside, the collector is in a query, so a walk that leaves what it enters changes nothing.
  change Collector.run _ _ = _
  rw [Collector.run_append, Collector.run_balanced hin (Nat.succ_ne_zero _)]
  simp [Collector.run, Collector.step, hdepth]

theorem collects_column (p : Place) (first : Ident) (rest : List Ident) :
    Collects (Below p) [.expr p (.column first rest)] [columnNode first rest] := by
  intro c hdepth hfree
  have hunmarked : ¬(rest = [] ∧ p ∈ c.dateParts) := fun h => hfree p h.2 List.suffix_rfl
  refine ⟨[], ?_, nofun⟩
  simp [Collector.run, Collector.step, Collector.meet, hdepth, hunmarked]

theorem brings_datePart {c : Collector} {e : Expr} (he : e.isDatePart = true)
    (hdepth : c.depth = 0) (hmarked : p ∈ c.dateParts) : c.Brings r (e.walk p) [] := by
  refine ⟨[], ?_, nofun⟩
  cases e with
  | column first rest =>
      cases rest with
      | nil => simp [Expr.walk, Collector.run, Collector.step, Collector.meet, hmarked, ← hdepth]
      | cons second rest => simp [Expr.isDatePart] at he
  | _ => simp [Expr.isDatePart] at he

/-- A call marks the arguments that name parts of dates before it comes to any of them. The marks
lie below the arguments, so the visits before and after these see none. -/
theorem collects_call {name : ObjectName} {opening closing groupOrder rest : List Piece}
    {args : List Argument} {found : List Tree} (hvs : Collects (Below (0 :: p)) vs ts)
    (hargs : ∀ c : Collector, c.depth = 0 →
      (∀ x, BelowFrom (1 :: p) 0 x →
        (x ∈ c.dateParts ↔ x ∈ datePartPlaces (takesPartFirst name) (1 :: p) 0 args)) →
      c.Brings (BelowFrom (1 :: p) 0) (walkArguments (1 :: p) 0 args) found)
    (hws : Collects (BelowFrom p 2) ws us) :
    Collects (Below p)
      (.expr p (.call name opening args closing groupOrder rest)
        :: (vs ++ walkArguments (1 :: p) 0 args ++ ws))
      (ts ++ found ++ us) := by
  intro c hdepth hfree
  obtain ⟨marks, hmarks⟩ : ∃ marks, marks = datePartPlaces (takesPartFirst name) (1 :: p) 0 args :=
    ⟨_, rfl⟩
  have hplaces : ∀ x ∈ marks, Below (1 :: p) x := fun x hx =>
    (belowFrom_of_mem_datePartPlaces (hmarks ▸ hx)).below
  have hbrings : Collector.Brings ⟨c.found, 0, c.dateParts ++ marks⟩
      (fun x => (Below (0 :: p) x ∨ BelowFrom (1 :: p) 0 x) ∨ BelowFrom p 2 x)
      (vs ++ walkArguments (1 :: p) 0 args ++ ws) (ts ++ found ++ us) := by
    refine Collector.Brings.append (Collector.Brings.append (hvs _ rfl fun x hx hbelow => ?_)
      fun marked hmarked => hargs _ rfl fun x hx => ?_) fun marked hmarked =>
        hws _ rfl fun x hx hbelow => ?_
    · rcases List.mem_append.mp hx with hx | hx
      · exact hfree x hx hbelow.of_cons
      · exact (hplaces x hx).not_below (by simp) hbelow
    · have hold : x ∉ c.dateParts := fun hmem => hfree x hmem hx.below.of_cons
      have hnew : x ∉ marked := fun hmem => (hmarked x hmem).not_below (by simp) hx.below
      rw [List.mem_append, or_iff_left hnew, List.mem_append, or_iff_right hold, hmarks]
    · rcases List.mem_append.mp hx with hx | hx
      · rcases List.mem_append.mp hx with hx | hx
        · exact hfree x hx hbelow.below
        · exact (hplaces x hx).not_belowFrom (by simp) hbelow
      · rcases hmarked x hx with hx | hx
        · exact hx.not_belowFrom (by simp) hbelow
        · exact hx.below.not_belowFrom (by simp) hbelow
  obtain ⟨marked, hrun, hmarked⟩ := hbrings
  have hstep : c.step (.expr p (.call name opening args closing groupOrder rest))
      = ⟨c.found, 0, c.dateParts ++ marks⟩ := by
    simp [Collector.step, Collector.meet, hdepth, hmarks]
  refine ⟨marks ++ marked, ?_, List.forall_mem_append.mpr
    ⟨fun x hx => (hplaces x hx).of_cons, fun x hx => ?_⟩⟩
  · rw [Collector.run, List.foldl_cons, hstep, ← List.append_assoc c.dateParts]
    exact hrun
  · rcases hmarked x hx with (hx | hx) | hx
    · exact hx.of_cons
    · exact hx.below.of_cons
    · exact hx.below

end

mutual

theorem Expr.collects_walk (p : Place) : (e : Expr) → Collects (Below p) (e.walk p) e.findings
  | .column first rest => by
      rw [Expr.walk, Expr.findings]
      exact collects_column p first rest
  | .binary left _ right => by
      rw [Expr.walk, Expr.findings]
      have hparts := (left.collects_walk (0 :: p)).parts (right.collects_walk (1 :: p)) (by simp)
      exact hparts.meet fun _ => rfl
  | .nested inner => by
      rw [Expr.walk, Expr.findings]
      exact ((inner.collects_walk (0 :: p)).mono fun _ => Below.of_cons).meet fun _ => rfl
  | .subquery query => by
      rw [Expr.walk, Expr.findings]
      exact (collects_query (0 :: p) query).meet fun _ => rfl
  | .call name opening args closing groupOrder rest => by
      rw [Expr.walk, Expr.findings]
      have hopening := (collects_walkPieces (0 :: p) 0 opening).mono fun _ => BelowFrom.below
      have hclosing := (collects_walkPieces (2 :: p) 0 closing).mono fun _ => BelowFrom.below
      have hrest := (collects_walkPieces (3 :: p) 0 rest).mono fun _ => BelowFrom.below
      have hgroup := (collects_walkPieces (4 :: p) 0 groupOrder).mono fun _ h => h.below.belowFrom
      have hbehind : Collects (BelowFrom p 2) _ _ := hclosing.next (hrest.next hgroup)
      have hcall : Collects _ (.expr p (.call name opening args closing groupOrder rest) :: _) _ :=
        collects_call hopening (brings_walkArguments (1 :: p) _ 0 args) hbehind
      simpa only [List.append_assoc] using hcall
  | .trimming _ characters text => by
      rw [Expr.walk, Expr.findings]
      have hparts := (text.collects_walk (0 :: p)).parts (characters.collects_walk (1 :: p))
        (by simp)
      exact hparts.meet fun _ => rfl
  | .form pieces => by
      rw [Expr.walk, Expr.findings]
      have hpieces := (collects_walkPieces (0 :: p) 0 pieces).mono fun _ h => h.below.of_cons
      exact hpieces.meet fun _ => rfl

theorem Argument.brings_walk (p : Place) (partAllowed : Bool) :
    (a : Argument) → (c : Collector) → c.depth = 0 →
      (∀ x, Below p x → (x ∈ c.dateParts ↔ x = p ∧ a.namesDatePart partAllowed = true)) →
        c.Brings (Below p) (a.walk p) (a.findings partAllowed)
  | .expr e, c, hdepth, hmarks => by
      rw [Argument.walk, Argument.findings]
      rw [Argument.namesDatePart] at hmarks
      by_cases hpart : (partAllowed && e.isDatePart) = true
      · rw [if_pos hpart]
        rw [Bool.and_eq_true] at hpart
        exact brings_datePart hpart.2 hdepth
          ((hmarks p List.suffix_rfl).mpr ⟨rfl, by simpa using hpart⟩)
      · rw [if_neg hpart]
        exact e.collects_walk p c hdepth fun x hx hbelow => hpart ((hmarks x hbelow).mp hx).2
  | .other pieces, c, hdepth, hmarks => by
      rw [Argument.walk, Argument.findings]
      have hpieces := (collects_walkPieces p 0 pieces).mono fun _ h => h.below
      refine hpieces c hdepth fun x hx hbelow => ?_
      have hnamed := ((hmarks x hbelow).mp hx).2
      rw [Argument.namesDatePart] at hnamed
      exact Bool.false_ne_true hnamed

theorem brings_walkArguments (p : Place) (partAllowed : Bool) (i : Nat) :
    (args : List Argument) → (c : Collector) → c.depth = 0 →
      (∀ x, BelowFrom p i x → (x ∈ c.dateParts ↔ x ∈ datePartPlaces partAllowed p i args)) →
        c.Brings (BelowFrom p i) (walkArguments p i args) (argumentsFindings partAllowed args)
  | [], c, hdepth, _ => by
      rw [walkArguments, argumentsFindings]
      refine ⟨[], ?_, nofun⟩
      simp [Collector.run, ← hdepth]
  | a :: rest, c, hdepth, hmarks => by
      rw [walkArguments, argumentsFindings]
      -- Of the marks below the first argument none belongs to the others, and the other way round.
      have hhere : ∀ x, Below (i :: p) x →
          (x ∈ c.dateParts ↔ x = i :: p ∧ a.namesDatePart partAllowed = true) := fun x hx => by
        have hlater : x ∉ datePartPlaces true p (i + 1) rest := fun hmem =>
          hx.not_belowFrom i.lt_succ_self (belowFrom_of_mem_datePartPlaces hmem)
        rw [hmarks x (belowFrom_iff.mpr (.inl hx)), datePartPlaces, List.mem_append,
          or_iff_left hlater]
        split
        · next hnamed => simp [hnamed]
        · next hnamed => simp [hnamed]
      have hfirst := a.brings_walk (i :: p) partAllowed c hdepth hhere
      refine Collector.Brings.mono (hfirst.append fun marked hmarked => ?_) fun _ =>
        belowFrom_iff.mpr
      refine brings_walkArguments p true (i + 1) rest _ rfl fun x hx => ?_
      have hnew : x ∉ marked := fun hmem =>
        (hmarked x hmem).not_belowFrom i.lt_succ_self hx
      have hother : x ∉ if a.namesDatePart partAllowed then [i :: p] else [] := fun hmem => by
        split at hmem
        · have hhead : Below (i :: p) x := List.mem_singleton.mp hmem ▸ List.suffix_rfl
          exact hhead.not_belowFrom i.lt_succ_self hx
        · cases hmem
      rw [List.mem_append, or_iff_left hnew, hmarks x (belowFrom_iff.mpr (.inr hx)),
        datePartPlaces, List.mem_append, or_iff_right hother]

theorem Piece.collects_walk (p : Place) :
    (piece : Piece) → Collects (Below p) (piece.walk p) piece.findings
  | .text _ => by rw [Piece.walk, Piece.findings]; exact collects_nil
  | .expr e => by rw [Piece.walk, Piece.findings]; exact e.collects_walk p
  | .query q => by rw [Piece.walk, Piece.findings]; exact collects_query p q
  | .relation r => by rw [Piece.walk, Piece.findings]; exact r.collects_walk p

theorem collects_walkPieces (p : Place) (i : Nat) :
    (pieces : List Piece) →
      Collects (BelowFrom p i) (walkPieces p i pieces) (piecesFindings pieces)
  | [] => by rw [walkPieces, piecesFindings]; exact collects_nil
  | piece :: rest => by
      rw [walkPieces, piecesFindings]
      exact (piece.collects_walk (i :: p)).next (collects_walkPieces p (i + 1) rest)

theorem collects_walkExprs (p : Place) (i : Nat) :
    (es : List Expr) → Collects (BelowFrom p i) (walkExprs p i es) (exprsFindings es)
  | [] => by rw [walkExprs, exprsFindings]; exact collects_nil
  | e :: rest => by
      rw [walkExprs, exprsFindings]
      exact (e.collects_walk (i :: p)).next (collects_walkExprs p (i + 1) rest)

theorem Relation.collects_walk (p : Place) :
    (r : Relation) → Collects (Below p) (r.walk p) r.findings
  | .table _ afterName _ afterAlias => by
      rw [Relation.walk, Relation.findings]
      have hname := (collects_walkPieces (0 :: p) 0 afterName).mono fun _ => BelowFrom.below
      have halias := (collects_walkPieces (1 :: p) 0 afterAlias).mono fun _ => BelowFrom.below
      exact hname.parts halias (by simp)
  | .derived _ query _ afterAlias => by
      rw [Relation.walk, Relation.findings]
      have halias := (collects_walkPieces (1 :: p) 0 afterAlias).mono fun _ => BelowFrom.below
      have hquery : Collects (Below (0 :: p)) _ _ := collects_query (0 :: p) query
      exact hquery.parts halias (by simp)
  | .joined item _ => by rw [Relation.walk, Relation.findings]; exact item.collects_walk p
  | .unnest items _ _ _ => by
      rw [Relation.walk, Relation.findings]
      exact (collects_walkExprs p 0 items).mono fun _ => BelowFrom.below
  | .form pieces => by
      rw [Relation.walk, Relation.findings]
      exact (collects_walkPieces p 0 pieces).mono fun _ => BelowFrom.below

theorem FromItem.collects_walk (p : Place) :
    (item : FromItem) → Collects (Below p) (item.walk p) item.findings
  | .mk relation joins => by
      rw [FromItem.walk, FromItem.findings]
      have hjoins := (collects_walkJoins (1 :: p) 0 joins).mono fun _ => BelowFrom.below
      exact (relation.collects_walk (0 :: p)).parts hjoins (by simp)

theorem Join.collects_walk (p : Place) : (j : Join) → Collects (Below p) (j.walk p) j.findings
  | .conditioned _ relation condition => by
      rw [Join.walk, Join.findings]
      exact (relation.collects_walk (0 :: p)).parts (condition.collects_walk (1 :: p)) (by simp)
  | .matching _ relation _ => by rw [Join.walk, Join.findings]; exact relation.collects_walk p
  | .natural _ relation => by rw [Join.walk, Join.findings]; exact relation.collects_walk p
  | .unconditional _ relation => by rw [Join.walk, Join.findings]; exact relation.collects_walk p
  | .operator _ _ relation rest => by
      rw [Join.walk, Join.findings]
      have hrest := (collects_walkPieces (1 :: p) 0 rest).mono fun _ => BelowFrom.below
      exact (relation.collects_walk (0 :: p)).parts hrest (by simp)

theorem collects_walkJoins (p : Place) (i : Nat) :
    (joins : List Join) → Collects (BelowFrom p i) (walkJoins p i joins) (joinsFindings joins)
  | [] => by rw [walkJoins, joinsFindings]; exact collects_nil
  | j :: rest => by
      rw [walkJoins, joinsFindings]
      exact (j.collects_walk (i :: p)).next (collects_walkJoins p (i + 1) rest)

end

/-- **The collector finds the findings.** The walk of the whole expression collects them from any
state (`collects_walk`), so it does from the empty one. -/
theorem Expr.collected_eq_findings (e : Expr) : e.collected = e.findings := by
  obtain ⟨marked, hrun, -⟩ := e.collects_walk [] {} rfl nofun
  rw [Expr.collected, hrun]
  rfl

end Sql

end QueryLineage
