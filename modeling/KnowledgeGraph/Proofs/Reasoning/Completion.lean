import KnowledgeGraph.Reasoning.Completion
import KnowledgeGraph.Proofs.Best
import KnowledgeGraph.Proofs.Except
import KnowledgeGraph.Proofs.Number.Bounds
import KnowledgeGraph.Proofs.Value
import Mathlib.Data.List.Perm.Basic

/-!
# The ranking of completions

Every candidate with a truth value and a text as its name has a score, which is a number. A ranking
lists each name once, with the first of the best candidates that have it, by falling scores, where
names of equal scores stay in the order of their first candidates (`IsRankedBest`). The names and
their scores are the same for every order of the candidates (`rank_best`).
-/

namespace KnowledgeGraph.Completion

/-! ## Scores -/

/-- A candidate has a truth value in the unit interval and a text as its name. -/
structure IsCandidate (a : Atom) : Prop where
  truth : ∃ t, a.truth = .known t ∧ InUnit t.strength ∧ InUnit t.confidence
  name : ∃ s, a.name = .text s

/-- A candidate is scored in a context, and its metadata say so. -/
structure Scores (context : Value) (a : Atom) (s : Scored) : Prop where
  score : score context a = .ok s.score
  candidate : s.candidate = { a with metadata := Entries.set a.metadata "score" (.float s.score) }

/-- The name that a scored candidate completes to. -/
def Scored.name (s : Scored) : Value := s.candidate.name

section

variable {context : Value} {es : Entries} {a : Atom} {s t : Scored}

theorem Scores.name (h : Scores context a s) : s.name = a.name := by
  unfold Scored.name
  rw [h.candidate]

theorem Scores.unique (h : Scores context a s) (h' : Scores context a t) : s = t := by
  obtain ⟨hscore, hcandidate⟩ := h
  obtain ⟨hscore', hcandidate'⟩ := h'
  have heq : s.score = t.score := Except.ok.inj (hscore.symm.trans hscore')
  rw [heq, ← hcandidate'] at hcandidate
  cases s
  cases t
  cases heq
  cases hcandidate
  rfl

theorem exists_relevance (es : Entries) (ha : IsCandidate a) :
    ∃ r, relevance (.map es) a = .ok r ∧ InUnit r := by
  obtain ⟨n, hname⟩ := ha.name
  have hstarts (start : String) : ∃ b, startsWith start a.name = .ok b := by
    rw [hname]
    exact ⟨_, rfl⟩
  have hfield (n : String) : (Value.map es).field n = .ok ((Entries.get? es n).getD .null) := rfl
  have hsource (first second : Bool) : ∃ r, (if first then .ok 1 else if second then .ok 1
      else .ok 0.5 : Except Fault Float) = .ok r ∧ InUnit r := by
    split
    · exact ⟨1, rfl, inUnit_one⟩
    · split
      · exact ⟨1, rfl, inUnit_one⟩
      · exact ⟨0.5, rfl, inUnit_half⟩
  unfold relevance
  simp only [hfield, Except.ok_bind, Except.pure_eq]
  split
  · split
    · obtain ⟨b, hb⟩ := hstarts _
      rw [hb, Except.ok_bind]
      cases b with
      | true => exact ⟨1, rfl, inUnit_one⟩
      | false => exact ⟨0, rfl, inUnit_zero⟩
    · exact hsource _ _
  · exact hsource _ _

theorem exists_scores (es : Entries) (ha : IsCandidate a) :
    ∃ s, Scores (.map es) a s ∧ s.score.isNaN = false := by
  obtain ⟨t, htruth, hstrength, hconfidence⟩ := ha.truth
  obtain ⟨r, hr, hunit⟩ := exists_relevance es ha
  have hc : InUnit (0.3 * t.confidence) := InUnit.mul (by unfold InUnit; decide +kernel) hconfidence
  have hfit : InUnit (0.2 * r) := InUnit.mul (by unfold InUnit; decide +kernel) hunit
  have hsum := (isModest_add hstrength hc).add hfit.isModest
  let s : Scored := {
    score := t.strength + 0.3 * t.confidence + 0.2 * r
    candidate := { a with
      metadata := Entries.set a.metadata "score"
        (.float (t.strength + 0.3 * t.confidence + 0.2 * r)) } }
  refine ⟨s, ⟨?_, rfl⟩, isNaN_of_isFinite hsum.1⟩
  unfold score
  rw [htruth, hr]
  rfl

end

/-! ## The best of each name -/

/-- Whether a candidate has a higher score than a known one, which is kept otherwise. -/
def scoresMore (s known : Scored) : Bool := known.score < s.score

/-- A scored candidate, under its name. -/
structure IsEntry (e : Scalar × Scored) : Prop where
  sharp : Key.Sharp e.1
  name : e.2.name = .scalar e.1
  score : e.2.score.isNaN = false

/-- A candidate is put in with its score, unless as good a one of its name is known. -/
theorem exists_keepBest {es : Entries} {a : Atom} (ha : IsCandidate a) :
    ∃ e, (IsEntry e ∧ Scores (.map es) a e.2) ∧
      ∀ best, keepBest (.map es) best a = .ok (Table.putBetter scoresMore best e) := by
  obtain ⟨n, hname⟩ := ha.name
  obtain ⟨s, hs, hnan⟩ := exists_scores es ha
  have hkey : a.name.toKey = .ok (.text n) := by
    rw [hname]
    rfl
  refine ⟨(.text n, s), ⟨⟨Key.sharp_text n, hs.name.trans hname, hnan⟩, hs⟩, fun best => ?_⟩
  unfold keepBest Table.putBetter
  rw [hs.score, Except.ok_bind, hkey, Except.ok_bind, ← hs.candidate]
  dsimp only
  cases best.lookup? (.text n) with
  | none => rfl
  | some known =>
    unfold scoresMore
    simp only [decide_eq_true_eq]
    rfl

/-- A ranking of candidates: each name once, with the first of the best candidates that have it, by
falling scores, and of equal scores the name that comes first among the candidates. -/
structure IsRankedBest (context : Value) (candidates : List Atom) (scored ranked : List Scored) :
    Prop where
  scores : List.Forall₂ (Scores context) candidates scored
  names : (ranked.map Scored.name).Perm (candidates.map (·.name)).eraseDups
  best : ∀ s ∈ ranked, IsFirstBest (·.score) (scored.filter (·.name = s.name)) s
  falling : ranked.Pairwise fun s t => t.score < s.score ∨ (s.score == t.score) = true ∧
    (candidates.map (·.name)).idxOf s.name < (candidates.map (·.name)).idxOf t.name

/-- Every name of the first list has the same score in the second. -/
def HasScores (ranked others : List Scored) : Prop :=
  ∀ s ∈ ranked, ∃ t ∈ others, t.name = s.name ∧ (t.score == s.score) = true

section

variable {es : Entries} {candidates others : List Atom}

/-- What ranking comes to: the best of each name, and these by falling scores. -/
theorem rank_eq_ok (es : Entries) (h : ∀ a ∈ candidates, IsCandidate a) :
    ∃ scored best, List.Forall₂ (Scores (.map es)) candidates scored ∧
      (∀ s ∈ scored, s.score.isNaN = false) ∧
      IsBestOfEach Scored.name (fun s => KnowledgeGraph.rank s.score) scored best ∧
      rank (.map es) candidates =
        .ok ((best.mergeSort fun s t => !(s.score < t.score)).map (·.candidate)) := by
  obtain ⟨entries, hentries, hrun⟩ := Except.exists_foldl fun a ha => exists_keepBest (h a ha)
  have hentry : ∀ e ∈ entries, IsEntry e := by
    intro e he
    obtain ⟨a, -, hentry, -⟩ := Except.exists_of_forall₂ hentries he
    exact hentry
  have hscores : List.Forall₂ (Scores (.map es)) candidates (Table.values entries) :=
    List.forall₂_map_right_iff.2 (hentries.imp fun _ _ h => h.2)
  have hnan : ∀ s ∈ Table.values entries, s.score.isNaN = false := by
    intro s hs
    obtain ⟨e, he, rfl⟩ := List.mem_map.1 hs
    exact (hentry e he).score
  refine ⟨_, Table.values (entries.foldl (Table.putBetter scoresMore) []), hscores, hnan,
    Table.isBestOfEach_values (f := Value.scalar) (fun k hk => ?_) (fun _ _ => Value.scalar.inj)
      (fun e he => (hentry e he).name.symm) fun s hs t ht => ?_, ?_⟩
  · obtain ⟨e, he, rfl⟩ := List.mem_map.1 hk
    exact (hentry e he).sharp
  · unfold scoresMore
    rw [decide_eq_true_iff, lt_iff_rank (hnan t ht) (hnan s hs)]
  · unfold rank
    rw [hrun, Except.ok_bind]
    rfl

theorem names_of_scores {scored : List Scored} {context : Value}
    (h : List.Forall₂ (Scores context) candidates scored) :
    scored.map Scored.name = candidates.map (·.name) := by
  rw [← List.forall₂_eq_eq_eq, List.forall₂_map_left_iff, List.forall₂_map_right_iff]
  exact h.flip.imp fun _ _ => Scores.name

theorem isRankedBest_mergeSort {scored best : List Scored} {context : Value}
    (hscores : List.Forall₂ (Scores context) candidates scored)
    (hnan : ∀ s ∈ scored, s.score.isNaN = false)
    (hbest : IsBestOfEach Scored.name (fun s => KnowledgeGraph.rank s.score) scored best) :
    IsRankedBest context candidates scored (best.mergeSort fun s t => !(s.score < t.score)) := by
  have hnames := names_of_scores hscores
  have hmem : ∀ s ∈ best, s.score.isNaN = false := fun s hs =>
    hnan s (List.mem_filter.1 (hbest.best s hs).mem).1
  have hsort := isFalling_less hmem
  have hfirst : best.Pairwise fun s t =>
      (candidates.map (·.name)).idxOf s.name < (candidates.map (·.name)).idxOf t.name := by
    have hfirst := pairwise_idxOf_eraseDups (candidates.map (·.name))
    rwa [← hnames, ← hbest.keys, List.pairwise_map, hnames] at hfirst
  refine ⟨hscores, ?_, fun s hs => ?_, hsort.pairwise_float hmem hfirst⟩
  · rw [← hnames, ← hbest.keys]
    exact hsort.perm.map _
  · exact (hbest.float hnan).best s (hsort.perm.mem_iff.1 hs)

/-- The best of each name have the same scores for every order of the candidates. -/
theorem hasScores_of_perm {scored scored' best best' : List Scored} {context : Value}
    (hperm : candidates.Perm others) (hscores : List.Forall₂ (Scores context) candidates scored)
    (hscores' : List.Forall₂ (Scores context) others scored')
    (hnan : ∀ s ∈ scored, s.score.isNaN = false)
    (hbest : IsBestOfEach Scored.name (fun s => KnowledgeGraph.rank s.score) scored best)
    (hbest' : IsBestOfEach Scored.name (fun s => KnowledgeGraph.rank s.score) scored' best') :
    HasScores best best' := by
  have hscored : scored.Perm scored' := by
    obtain ⟨middle, hmiddle, hperm'⟩ := List.perm_comp_forall₂ hperm hscores'
    have hunique : Relator.RightUnique (Scores context) := fun _ _ _ => Scores.unique
    obtain rfl : middle = scored := hunique.forall₂ hmiddle hscores
    exact hperm'
  intro s hs
  obtain ⟨t, ht, hname, hrank⟩ := hbest.exists_of_perm hbest' hscored s hs
  refine ⟨t, ht, hname, (beq_iff_rank (hnan t ?_) (hnan s ?_)).2 hrank⟩
  · exact hscored.mem_iff.2 (List.mem_filter.1 (hbest'.best t ht).mem).1
  · exact (List.mem_filter.1 (hbest.best s hs).mem).1

theorem HasScores.perm {ranked ranked' scored scored' : List Scored} (h : HasScores ranked ranked')
    (hranked : scored.Perm ranked) (hranked' : scored'.Perm ranked') : HasScores scored scored' := by
  intro s hs
  obtain ⟨t, ht, hsame⟩ := h s (hranked.mem_iff.1 hs)
  exact ⟨t, hranked'.mem_iff.2 ht, hsame⟩

/-- **The best completions.** Candidates with truth values and texts as names are ranked in every
context: each name once, with the first of the best candidates that have it, by falling scores, and
names of equal scores in the order in which they occur. In another order the candidates have the
same names and scores. -/
theorem rank_best (es : Entries) (h : ∀ a ∈ candidates, IsCandidate a) :
    ∃ scored ranked, rank (.map es) candidates = .ok (ranked.map (·.candidate)) ∧
      IsRankedBest (.map es) candidates scored ranked ∧
      ∀ others, others.Perm candidates → ∃ ranked',
        rank (.map es) others = .ok (ranked'.map (·.candidate)) ∧
          HasScores ranked ranked' ∧ HasScores ranked' ranked := by
  obtain ⟨scored, best, hscores, hnan, hbest, hrank⟩ := rank_eq_ok es h
  refine ⟨scored, _, hrank, isRankedBest_mergeSort hscores hnan hbest, fun others hperm => ?_⟩
  obtain ⟨scored', best', hscores', hnan', hbest', hrank'⟩ :=
    rank_eq_ok es fun a ha => h a (hperm.mem_iff.1 ha)
  have hsort := List.mergeSort_perm best fun s t => !(s.score < t.score)
  have hsort' := List.mergeSort_perm best' fun s t => !(s.score < t.score)
  exact ⟨_, hrank', (hasScores_of_perm hperm.symm hscores hscores' hnan hbest hbest').perm hsort hsort',
    (hasScores_of_perm hperm hscores' hscores hnan' hbest' hbest).perm hsort' hsort⟩

end

/-- A suggestion of a name by a pattern. -/
def suggestion (name : String) (confidence : Float) : Atom :=
  .make .completionSuggestion (.text name) (some (.of confidence 0.8))
    (Entries.ofFields [bySource "pattern-based"]) []

theorem isCandidate_suggestion (name : String) (confidence : Float) :
    IsCandidate (suggestion name confidence) :=
  ⟨⟨_, rfl, inUnit_clampUnit _, inUnit_clampUnit _⟩, name, rfl⟩

/-- Of two suggestions of one name one is left. -/
theorem rank_best_twice :
    ∃ ranked : List Scored, rank (.map []) [suggestion "get" 0.5, suggestion "set" 0.5,
      suggestion "get" 0.9] = .ok (ranked.map (·.candidate)) ∧ ranked.length = 2 := by
  have hall : ∀ a ∈ [suggestion "get" 0.5, suggestion "set" 0.5, suggestion "get" 0.9],
      IsCandidate a := by
    rw [List.forall_mem_cons, List.forall_mem_cons, List.forall_mem_singleton]
    exact ⟨isCandidate_suggestion _ _, isCandidate_suggestion _ _, isCandidate_suggestion _ _⟩
  obtain ⟨scored, ranked, hrank, hranked, -⟩ := rank_best [] hall
  refine ⟨ranked, hrank, ?_⟩
  have hlength := hranked.names.length_eq
  rw [List.length_map] at hlength
  exact hlength

end KnowledgeGraph.Completion
