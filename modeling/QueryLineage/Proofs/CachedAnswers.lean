import QueryLineage.Metadata.Provider
import QueryLineage.Proofs.FirstOccurrences
import QueryLineage.Proofs.ProviderAnswers
import QueryLineage.Proofs.ProviderSimulation

/-!
# What a cache answers

A cache is a note of answers that can be thrown away, so asking it is asking once
(`inFrontOf_eq_askOnce`). Its entries are therefore told by the calls alone: one for each address
looked up since the last clear, with the answer that the provider gave to the first of these
look-ups (`HoldsFirstAnswers`, kept by each call). Nothing is assumed of the provider here, which
may answer an address in another way each time. Where it does not, a cache that holds its answers
gives what it would give, and analyses with the cache come to what they come to without
(`simulates_of_consistent`).
-/

namespace QueryLineage

variable {σ : Type}

/-! ## Calls -/

/-- What is done with a cache. -/
inductive CacheCall
  | lookUp (key : TableKey)
  | clear
deriving DecidableEq

/-- The addresses looked up since the last clear. -/
def CacheCall.sinceClear (calls : List CacheCall) : List TableKey :=
  calls.foldl (fun keys call => match call with
    | lookUp key => keys ++ [key]
    | clear => []) []

namespace MetadataCache

open CacheCall

/-- The cache in front of a provider in the state `s`, and the provider's state, after some calls.
At first the cache is empty. -/
def after (p : Provider σ) (s : σ) (calls : List CacheCall) : MetadataCache × σ :=
  calls.foldl (fun state call => match call with
    | lookUp key => ((inFrontOf p key).run state).2
    | .clear => (clear.run state).2) ([], s)

/-- The answer is the one that the provider gave to the first look-up of the address since the last
clear. -/
def FirstAnswer (p : Provider σ) (s : σ) (calls : List CacheCall) (key : TableKey)
    (answer : MetadataAnswer) : Prop :=
  ∃ earlier between, calls = earlier ++ lookUp key :: between ∧ key ∉ sinceClear earlier
    ∧ CacheCall.clear ∉ between ∧ answer = ((p key).run (after p s earlier).2).1

theorem sinceClear_concat_lookUp (calls : List CacheCall) (key : TableKey) :
    sinceClear (calls ++ [lookUp key]) = sinceClear calls ++ [key] := by
  simp only [sinceClear, List.foldl_append, List.foldl_cons, List.foldl_nil]

theorem sinceClear_concat_clear (calls : List CacheCall) :
    sinceClear (calls ++ [CacheCall.clear]) = [] := by
  simp only [sinceClear, List.foldl_append, List.foldl_cons, List.foldl_nil]

theorem after_concat_lookUp (p : Provider σ) (s : σ) (calls : List CacheCall) (key : TableKey) :
    after p s (calls ++ [lookUp key]) = ((inFrontOf p key).run (after p s calls)).2 := by
  simp only [after, List.foldl_append, List.foldl_cons, List.foldl_nil]

theorem after_concat_clear (p : Provider σ) (s : σ) (calls : List CacheCall) :
    after p s (calls ++ [CacheCall.clear]) = ([], (after p s calls).2) := by
  simp only [after, List.foldl_append, List.foldl_cons, List.foldl_nil]
  rfl

theorem inFrontOf_eq_askOnce (p : Provider σ) : inFrontOf p = askOnce p := by
  funext key ⟨cache, s⟩
  dsimp only [inFrontOf, askOnce]
  cases cache.lookup key with
  | none => rfl
  | some answer => rfl

/-! ## Entries -/

/-- The answer to the first look-up stays that, however often the address is looked up again. -/
theorem FirstAnswer.lookUp {p : Provider σ} {s : σ} {calls : List CacheCall} {key : TableKey}
    {answer : MetadataAnswer} (h : FirstAnswer p s calls key answer) (other : TableKey) :
    FirstAnswer p s (calls ++ [.lookUp other]) key answer := by
  obtain ⟨earlier, between, rfl, hfirst, hbetween, hanswer⟩ := h
  exact ⟨earlier, between ++ [.lookUp other], by simp, hfirst, by simpa using hbetween, hanswer⟩

/-- An address without an entry is looked up for the first time. -/
theorem FirstAnswer.now {p : Provider σ} {s : σ} {calls : List CacheCall} {key : TableKey}
    (hnew : key ∉ sinceClear calls) :
    FirstAnswer p s (calls ++ [.lookUp key]) key ((p key).run (after p s calls).2).1 :=
  ⟨calls, [], rfl, hnew, List.not_mem_nil, rfl⟩

/-- There is one entry for each address looked up since the last clear, the latest first, and it has
the answer to the first of these look-ups. -/
structure HoldsFirstAnswers (p : Provider σ) (s : σ) (calls : List CacheCall)
    (cache : MetadataCache) : Prop where
  keys : (cache.map Prod.fst).reverse = (sinceClear calls).eraseDups
  answers : ∀ e ∈ cache, FirstAnswer p s calls e.1 e.2

namespace HoldsFirstAnswers

variable {p : Provider σ} {s : σ} {calls : List CacheCall}

theorem mem_keys_iff {cache : MetadataCache} (h : HoldsFirstAnswers p s calls cache)
    (key : TableKey) : key ∈ cache.map Prod.fst ↔ key ∈ sinceClear calls := by
  rw [← List.mem_reverse, h.keys, List.mem_eraseDups]

/-- A look-up gives the first answer, and leaves the entries as they should be. An address that has
an entry was looked up before, so its entry is the first answer; any other address is looked up for
the first time. -/
theorem run_inFrontOf (h : HoldsFirstAnswers p s calls (after p s calls).1) (key : TableKey) :
    let found := (inFrontOf p key).run (after p s calls)
    FirstAnswer p s (calls ++ [.lookUp key]) key found.1
      ∧ HoldsFirstAnswers p s (calls ++ [.lookUp key]) found.2.1 := by
  intro found
  have hfound : found = (askOnce p key).run (after p s calls) := by
    rw [← inFrontOf_eq_askOnce]
  rcases run_askOnce_cases p key (after p s calls).1 (after p s calls).2
    with ⟨known, hknown, hrun⟩ | ⟨hnew, hrun⟩
  · have hmem := (h.mem_keys_iff key).mp (List.mem_map_of_mem hknown)
    rw [hfound, hrun]
    refine ⟨(h.answers _ hknown).lookUp key, ?_, fun e he => (h.answers e he).lookUp key⟩
    rw [sinceClear_concat_lookUp, eraseDups_concat, if_pos hmem]
    exact h.keys
  · have hfirst := fun hmem => hnew ((h.mem_keys_iff key).mpr hmem)
    rw [hfound, hrun]
    refine ⟨.now hfirst, ?_, List.forall_mem_cons.mpr
      ⟨.now hfirst, fun e he => (h.answers e he).lookUp key⟩⟩
    rw [sinceClear_concat_lookUp, eraseDups_concat, if_neg hfirst, List.map_cons,
      List.reverse_cons, h.keys]

end HoldsFirstAnswers

theorem holdsFirstAnswers_after (p : Provider σ) (s : σ) (calls : List CacheCall) :
    HoldsFirstAnswers p s calls (after p s calls).1 := by
  induction calls using List.reverseRecOn with
  | nil => exact ⟨rfl, fun e he => absurd he List.not_mem_nil⟩
  | append_singleton calls call ih =>
      cases call with
      | lookUp key =>
          rw [after_concat_lookUp]
          exact (ih.run_inFrontOf key).2
      | clear =>
          rw [after_concat_clear]
          exact ⟨by rw [sinceClear_concat_clear]; rfl, fun e he => absurd he List.not_mem_nil⟩

theorem length_after (p : Provider σ) (s : σ) (calls : List CacheCall) :
    (after p s calls).1.length = (sinceClear calls).eraseDups.length := by
  rw [← (holdsFirstAnswers_after p s calls).keys, List.length_reverse, List.length_map]

/-! ## Questions to the provider -/

theorem sinceClear_append_lookUps {calls : List CacheCall} (hclear : sinceClear calls = [])
    (keys : List TableKey) : sinceClear (calls ++ keys.map lookUp) = keys := by
  induction keys using List.reverseRecOn with
  | nil => simpa using hclear
  | append_singleton keys key ih =>
      rw [List.map_append, ← List.append_assoc, List.map_singleton, sinceClear_concat_lookUp, ih]

/-- The provider is asked once about each address, in the order of the first look-ups. The cache
logs its questions as anyone does who asks once (`Logged.askOnce`), and its entries say which these
were. -/
theorem seen_after_lookUps (p : Provider σ) (start : σ × List TableKey) {calls : List CacheCall}
    (hclear : sinceClear calls = []) (keys : List TableKey) :
    (after p.noting start (calls ++ keys.map lookUp)).2.2
      = (after p.noting start calls).2.2 ++ keys.eraseDups := by
  have hentries := (holdsFirstAnswers_after p.noting start (calls ++ keys.map lookUp)).keys
  rw [sinceClear_append_lookUps hclear] at hentries
  have hlogged : Logged some (fun _ => True) (after p.noting start calls).2.2
      (after p.noting start (calls ++ keys.map lookUp)) := by
    clear hentries
    induction keys using List.reverseRecOn with
    | nil =>
        have hempty : (after p.noting start calls).1 = [] := by
          rw [← List.length_eq_zero_iff, length_after, hclear]
          rfl
        rw [List.map_nil, List.append_nil]
        exact ⟨by simp [hempty], by simp, by simp [hempty]⟩
    | append_singleton keys key ih =>
        rw [List.map_append, ← List.append_assoc, List.map_singleton, after_concat_lookUp,
          inFrontOf_eq_askOnce]
        have hnoted : ∀ key s, ((p.noting key).run s).2.2 = s.2 ++ (some key).toList :=
          fun _ _ => rfl
        exact ih.askOnce hnoted trivial
  rw [hlogged.seen_eq, hentries, List.filterMap_some]

end MetadataCache

/-! ## A provider that answers consistently -/

namespace Provider

/-- The provider's state after some questions. -/
def stateAfter (p : Provider σ) (s : σ) (asked : List TableKey) : σ :=
  asked.foldl (fun s key => ((p key).run s).2) s

theorem stateAfter_concat (p : Provider σ) (s : σ) (asked : List TableKey) (key : TableKey) :
    p.stateAfter s (asked ++ [key]) = ((p key).run (p.stateAfter s asked)).2 := by
  simp only [stateAfter, List.foldl_append, List.foldl_cons, List.foldl_nil]

/-- From the state `s` on, these are the answers, whatever is asked in between. -/
def AnswersFrom (p : Provider σ) (s : σ) (f : TableKey → MetadataAnswer) : Prop :=
  ∀ asked key, ((p key).run (p.stateAfter s asked)).1 = f key

end Provider

namespace MetadataCache

open CacheCall

variable {p : Provider σ} {s : σ} {f : TableKey → MetadataAnswer}

/-- The cache holds answers of the provider, and both providers are in states that questions lead
to. -/
def HoldsAnswers (p : Provider σ) (s : σ) (f : TableKey → MetadataAnswer)
    (cached : MetadataCache × σ) (direct : σ) : Prop :=
  NotesOf f cached.1 ∧ (∃ asked, cached.2 = p.stateAfter s asked)
    ∧ ∃ asked, direct = p.stateAfter s asked

theorem simulates_of_consistent (h : p.AnswersFrom s f) :
    (inFrontOf p).Simulates (HoldsAnswers p s f) p := by
  rintro key ⟨cache, _⟩ _ ⟨hcache, ⟨asked, rfl⟩, ⟨asked', rfl⟩⟩
  have hnext : ∀ asked, ∃ later, ((p key).run (p.stateAfter s asked)).2 = p.stateAfter s later :=
    fun asked => ⟨asked ++ [key], (p.stateAfter_concat s asked key).symm⟩
  rcases run_askOnce_cases p key cache (p.stateAfter s asked) with ⟨known, hknown, hrun⟩ | ⟨-, hrun⟩
  · rw [inFrontOf_eq_askOnce, hrun]
    exact ⟨(hcache _ hknown).trans (h asked' key).symm, hcache, ⟨asked, rfl⟩, hnext asked'⟩
  · rw [inFrontOf_eq_askOnce, hrun]
    exact ⟨(h asked key).trans (h asked' key).symm,
      List.forall_mem_cons.mpr ⟨h asked key, hcache⟩, hnext asked, hnext asked'⟩

theorem holdsAnswers_after (h : p.AnswersFrom s f) (calls : List CacheCall)
    (asked : List TableKey) : HoldsAnswers p s f (after p s calls) (p.stateAfter s asked) := by
  induction calls using List.reverseRecOn generalizing asked with
  | nil => exact ⟨fun e he => absurd he List.not_mem_nil, ⟨[], rfl⟩, ⟨asked, rfl⟩⟩
  | append_singleton calls call ih =>
      cases call with
      | lookUp key =>
          rw [after_concat_lookUp]
          obtain ⟨hcache, hstate, -⟩ := (simulates_of_consistent h key _ _ (ih asked)).2
          exact ⟨hcache, hstate, ⟨asked, rfl⟩⟩
      | clear =>
          rw [after_concat_clear]
          exact ⟨fun e he => absurd he List.not_mem_nil, (ih asked).2⟩

end MetadataCache

/-- The reports of some requests, made one after the other with the same provider. -/
def LineageRequest.reports (provider : Option (Provider σ))
    (requests : List (LineageOptions × String × LineageRequest)) :
    StateM σ (List (Except LineageError (LineageReport × List Notice))) :=
  requests.mapM fun (o, timestamp, r) => r.report o provider timestamp

theorem LineageRequest.alike_reports {τ : Type} {R : σ → τ → Prop} {p : Provider σ}
    {q : Provider τ} (h : p.Simulates R q)
    (requests : List (LineageOptions × String × LineageRequest)) :
    Alike R (reports (some p) requests) (reports (some q) requests) :=
  .mapM (fun request => request.2.2.alike_report h request.1 request.2.1) requests

namespace MetadataCache

open CacheCall

/-! ## The cache -/

/-- **A cache gives first answers, and keeps reports as they are.** Each look-up gives the answer,
failure or not, that the provider gave to the first look-up of that address since the last clear.
There are as many entries as distinct addresses have been looked up since then. Between two clears
the provider is asked about each address once. And if from `s` on the provider has one answer to
each address, the analyses that share the cache, in whatever state earlier calls left it, report
what they report with the provider itself. What carries the first four parts through all calls is
`HoldsFirstAnswers`; the last follows from providers with the same answers having the same
reports. -/
theorem gives_first_answers (p : Provider σ) (s : σ) :
    (∀ (calls : List CacheCall) (key : TableKey),
        FirstAnswer p s (calls ++ [lookUp key]) key ((inFrontOf p key).run (after p s calls)).1)
      ∧ (∀ calls : List CacheCall,
        (after p s calls).1.length = (sinceClear calls).eraseDups.length)
      ∧ (∀ seen keys : List TableKey,
        (after p.noting (s, seen) (keys.map lookUp)).2.2 = seen ++ keys.eraseDups)
      ∧ (∀ (seen : List TableKey) (calls : List CacheCall) (keys : List TableKey),
        (after p.noting (s, seen) (calls ++ CacheCall.clear :: keys.map lookUp)).2.2
          = (after p.noting (s, seen) calls).2.2 ++ keys.eraseDups)
      ∧ ((∃ f, p.AnswersFrom s f) →
        ∀ (requests : List (LineageOptions × String × LineageRequest)) (calls : List CacheCall)
          (asked : List TableKey),
          ((LineageRequest.reports (some (inFrontOf p)) requests).run (after p s calls)).1
            = ((LineageRequest.reports (some p) requests).run (p.stateAfter s asked)).1) := by
  refine ⟨fun calls key => ((holdsFirstAnswers_after p s calls).run_inFrontOf key).1,
    length_after p s, fun seen keys => ?_, fun seen calls keys => ?_, ?_⟩
  · exact seen_after_lookUps p (s, seen) (rfl : sinceClear [] = []) keys
  · have hseen := seen_after_lookUps p (s, seen) (sinceClear_concat_clear calls) keys
    rwa [List.append_assoc, List.singleton_append, after_concat_clear] at hseen
  · rintro ⟨f, hf⟩ requests calls asked
    have halike := LineageRequest.alike_reports (simulates_of_consistent hf) requests
    exact (halike _ _ (holdsAnswers_after hf calls asked)).1

/-- Two analyses share a cache that has been used, and cleared, before them. The failure of a
provider that counts its questions stays what it was at first. -/
theorem gives_first_answers_items :
    let known : TableKey := ⟨"p", "d", "items"⟩
    let unknown : TableKey := ⟨"p", "d", "orders"⟩
    let calls : List CacheCall := [.lookUp unknown, .clear, .lookUp known, .lookUp unknown]
    let requests : List (LineageOptions × String × LineageRequest) :=
      [(.ofConfig {}, "", .orderedQuantities), (.ofConfig {}, "", .orderedQuantities)]
    (∃ f, Tree.itemsProvider.AnswersFrom () f)
      ∧ ((LineageRequest.reports (some (inFrontOf Tree.itemsProvider)) requests).run
          (after Tree.itemsProvider () calls)).1
        = ((LineageRequest.reports (some Tree.itemsProvider) requests).run ()).1
      ∧ ((inFrontOf LineageRequest.countingProvider unknown).run
          (after LineageRequest.countingProvider 0 calls)).1
        = .error (.unavailable "asked 2 times") := by
  intro known unknown calls requests
  have hconsistent : ∃ f, Tree.itemsProvider.AnswersFrom () f := ⟨_, fun _ _ => rfl⟩
  have hreports := (gives_first_answers Tree.itemsProvider ()).2.2.2.2 hconsistent requests calls []
  exact ⟨hconsistent, hreports, rfl⟩

end MetadataCache

end QueryLineage
