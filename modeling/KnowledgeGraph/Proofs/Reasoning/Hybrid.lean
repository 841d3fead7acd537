import KnowledgeGraph.Proofs.Number.Sum
import KnowledgeGraph.Proofs.Reasoning.Failure

/-!
# Hybrid reasoning

Hybrid reasoning tries the general strategies one after the other. One that is missing, stops or
gives an answer that is marked as failed drops out (`Drops`), and it makes no difference which of the
three it is: without the strategy the answer is the same (`answer_of_drops`). The answers of the
others are kept in the order of the strategies (`Collects`), and the hybrid answer is made of all their
parts and of nothing else (`answer_joins`).
-/

namespace KnowledgeGraph

namespace Hybrid

/-! ## Single strategies -/

/-- A strategy gives an answer that is not marked as failed. -/
inductive Contributes (strategy : Option Strategy) (atoms : List Atom) (q : Question)
    (a : Answer) : Prop where
  | answers {s : Strategy} (hs : strategy = some s) (hrun : s atoms q = .ok a)
    (hgood : a.isFailed = false)

/-- The ways in which a strategy has nothing to contribute. -/
inductive Drops (strategy : Option Strategy) (atoms : List Atom) (q : Question) : Prop where
  | missing (hs : strategy = none)
  | stops {s : Strategy} {f : Fault} (hs : strategy = some s) (hrun : s atoms q = .error f)
  | marked {s : Strategy} {a : Answer} (hs : strategy = some s) (hrun : s atoms q = .ok a)
    (hfailed : a.isFailed = true)

variable {strategy : Option Strategy} {atoms : List Atom} {q : Question} {a : Answer}

theorem attempt_of_contributes (h : Contributes strategy atoms q a) :
    attempt strategy atoms q = some a := by
  obtain ⟨rfl, hrun, hgood⟩ := h
  unfold attempt
  rw [Option.bind_eq_bind, Option.bind_some, hrun]
  show (if a.isFailed = true then none else some a) = _
  rw [hgood, if_neg Bool.false_ne_true]

theorem attempt_of_drops (h : Drops strategy atoms q) : attempt strategy atoms q = none := by
  cases h with
  | missing hs =>
    rw [hs]
    rfl
  | stops hs hrun =>
    unfold attempt
    rw [hs, Option.bind_eq_bind, Option.bind_some, hrun]
    rfl
  | @marked s a hs hrun hfailed =>
    unfold attempt
    rw [hs, Option.bind_eq_bind, Option.bind_some, hrun]
    show (if a.isFailed = true then none else some a) = _
    rw [if_pos hfailed]

theorem contributes_or_drops (strategy : Option Strategy) (atoms : List Atom) (q : Question) :
    (∃ a, Contributes strategy atoms q a) ∨ Drops strategy atoms q := by
  cases strategy with
  | none => exact .inr (.missing rfl)
  | some s =>
    cases hrun : s atoms q with
    | error f => exact .inr (.stops rfl hrun)
    | ok a =>
      cases hfailed : a.isFailed with
      | true => exact .inr (.marked rfl hrun hfailed)
      | false => exact .inl ⟨a, .answers rfl hrun hfailed⟩

/-! ## Answers in order -/

/-- Of strategies in a row, those that contribute are listed with what they answer. -/
inductive Collects (strategies : ReasoningType → Option Strategy) (atoms : List Atom)
    (q : Question) : List ReasoningType → List (ReasoningType × Answer) → Prop where
  | nil : Collects strategies atoms q [] []
  | keep {t : ReasoningType} {a : Answer} {ts : List ReasoningType}
    {results : List (ReasoningType × Answer)} (h : Contributes (strategies t) atoms q a)
    (hrest : Collects strategies atoms q ts results) :
    Collects strategies atoms q (t :: ts) ((t, a) :: results)
  | drop {t : ReasoningType} {ts : List ReasoningType} {results : List (ReasoningType × Answer)}
    (h : Drops (strategies t) atoms q) (hrest : Collects strategies atoms q ts results) :
    Collects strategies atoms q (t :: ts) results

variable {strategies fewer : ReasoningType → Option Strategy} {ts : List ReasoningType}
  {results : List (ReasoningType × Answer)}

theorem exists_collects (strategies : ReasoningType → Option Strategy) (atoms : List Atom)
    (q : Question) (ts : List ReasoningType) : ∃ results, Collects strategies atoms q ts results := by
  induction ts with
  | nil => exact ⟨[], .nil⟩
  | cons t ts ih =>
    obtain ⟨results, hrest⟩ := ih
    obtain ⟨a, ha⟩ | hdrops := contributes_or_drops (strategies t) atoms q
    · exact ⟨(t, a) :: results, .keep ha hrest⟩
    · exact ⟨results, .drop hdrops hrest⟩

theorem Collects.eq_filterMap (h : Collects strategies atoms q ts results) :
    results = ts.filterMap fun t => (attempt (strategies t) atoms q).map (t, ·) := by
  induction h with
  | nil => rfl
  | keep ha _ ih => rw [List.filterMap_cons, attempt_of_contributes ha, ← ih, Option.map_some]
  | drop hdrops _ ih => rw [List.filterMap_cons, attempt_of_drops hdrops, ← ih, Option.map_none]

theorem Collects.length_le (h : Collects strategies atoms q ts results) :
    results.length ≤ ts.length := by
  rw [h.eq_filterMap]
  exact List.length_filterMap_le _ _

theorem Collects.inUnit (h : Collects strategies atoms q ts results)
    (hsound : ∀ t s, strategies t = some s → s.IsSound) :
    ∀ r ∈ results, InUnit r.2.confidence := by
  induction h with
  | nil => nofun
  | keep ha _ ih =>
    obtain ⟨hs, hrun, -⟩ := ha
    intro r hr
    obtain rfl | hr := List.mem_cons.1 hr
    · exact hsound _ _ hs _ _ _ hrun
    · exact ih r hr
  | drop _ _ ih => exact ih

/-! ## Joined answers -/

/-- An answer that is made of those of some strategies. -/
structure Joins (results : List (ReasoningType × Answer)) (a : Answer) : Prop where
  conclusion : a.conclusion = results.flatMap (·.2.conclusion)
  strategies :
    Entries.get? a.metadata "strategies" = some (Value.texts (results.map (·.1.label)))
  explanation : results ≠ [] → a.explanation =
    "; ".intercalate ((results.map (·.2.explanation)).filter fun s => !s.isEmpty)
  confidence : results ≠ [] → (a.confidence == mean (results.map (·.2.confidence))) = true
  inUnit : InUnit a.confidence
  empty : results = [] → a.conclusion = [] ∧ a.confidence = 0 ∧
    a.explanation = "No reasoning engines produced results"

theorem joins_join (hresults : ∀ r ∈ results, InUnit r.2.confidence) (hlen : results.length < 8) :
    Joins results (join results) := by
  cases results with
  | nil =>
    have hzero : confidenceOf 0 = 0 := by decide +kernel
    exact ⟨rfl, rfl, nofun, nofun, inUnit_confidenceOf 0, fun _ => ⟨rfl, hzero, rfl⟩⟩
  | cons r results =>
    have hmean : InUnit (mean ((r :: results).map (·.2.confidence))) := by
      have hshort : ((r :: results).map (·.2.confidence)).length < 2 ^ 53 := by
        rw [List.length_map]
        omega
      refine inUnit_mean ?_ (by simp) hshort
      intro x hx
      obtain ⟨r', hr', rfl⟩ := List.mem_map.1 hx
      exact hresults r' hr'
    exact ⟨rfl, rfl, fun _ => rfl, fun _ => hmean.confidenceOf_beq, inUnit_confidenceOf _, nofun⟩

theorem answer_of_drops
    (h : ∀ t ∈ types, fewer t = strategies t ∨ Drops (strategies t) atoms q ∧ fewer t = none) :
    answer fewer atoms q = answer strategies atoms q := by
  unfold answer results
  congr 1
  refine List.filterMap_congr fun t ht => ?_
  obtain heq | ⟨hdrops, hnone⟩ := h t ht
  · rw [heq]
  · rw [attempt_of_drops hdrops, attempt_of_drops (.missing hnone)]

/-- **Hybrid reasoning.** The answer does not change when strategies that drop out are not there at
all, and it is made of those of the strategies that do not drop out, in their fixed order. -/
theorem answer_joins (hsound : ∀ t s, strategies t = some s → s.IsSound) (atoms : List Atom)
    (q : Question) :
    (∀ fewer : ReasoningType → Option Strategy,
      (∀ t ∈ types, fewer t = strategies t ∨ Drops (strategies t) atoms q ∧ fewer t = none) →
        answer fewer atoms q = answer strategies atoms q) ∧
    ∃ results, Collects strategies atoms q
        [.deduction, .induction, .abduction, .patternMatching] results ∧
      Joins results (answer strategies atoms q) := by
  constructor
  · intro fewer h
    exact answer_of_drops h
  · obtain ⟨results, hcollects⟩ := exists_collects strategies atoms q types
    have hlen : results.length < 8 := hcollects.length_le.trans_lt (by decide)
    have hjoins := joins_join (hcollects.inUnit hsound) hlen
    rw [hcollects.eq_filterMap] at hjoins
    exact ⟨results, hcollects, hcollects.eq_filterMap ▸ hjoins⟩

/-- Of these strategies one is missing, one stops, one fails and only one has an answer. -/
def mixed : ReasoningType → Option Strategy
  | .induction => some fun _ _ => .error (.strategyFailed "No data")
  | .abduction => some fun _ _ => .ok (.failure "No hypotheses" "abductive")
  | .patternMatching => some fun _ _ => .ok (.of [] 1 "Seen" [])
  | _ => none

theorem mixed_isSound (t : ReasoningType) (s : Strategy) (hs : mixed t = some s) : s.IsSound := by
  intro atoms q a ha
  cases t <;> cases hs <;> cases ha <;> exact inUnit_confidenceOf _

theorem answer_joins_mixed :
    answer (fun t => if t = .patternMatching then mixed t else none) [] Reasoner.deductive =
      answer mixed [] Reasoner.deductive ∧
    ∃ results, Collects mixed [] Reasoner.deductive
        [.deduction, .induction, .abduction, .patternMatching] results ∧
      Joins results (answer mixed [] Reasoner.deductive) := by
  obtain ⟨hfewer, hjoins⟩ := answer_joins mixed_isSound [] Reasoner.deductive
  refine ⟨hfewer _ fun t ht => ?_, hjoins⟩
  obtain rfl | rfl | rfl | rfl : t = .deduction ∨ t = .induction ∨ t = .abduction ∨
      t = .patternMatching := by simpa [types] using ht
  · exact .inl rfl
  · exact .inr ⟨.stops rfl rfl, rfl⟩
  · exact .inr ⟨.marked rfl rfl rfl, rfl⟩
  · exact .inl rfl

end Hybrid

end KnowledgeGraph
