import KnowledgeGraph.Proofs.Reasoning.Depth

/-!
# Rules from atoms without a name

Facts are known of named atoms only, so nothing in the knowledge establishes an antecedent that has
neither a truth value nor a name (`Nameless.not_given`). What does establish one is an earlier
conclusion with its type and its name, that is, one without a name: conclusions are noted by their
type and name whether they have a name or not. `deduction_nameless` says that nothing else does, and
that such a conclusion does so always.
-/

namespace KnowledgeGraph.Deduction

variable {config : ReasoningConfig} {atoms : List Atom} {limit : Int} {rule a c : Atom}

/-! ## Antecedents without a name -/

/-- An atom with neither a truth value nor a name. -/
structure Nameless (a : Atom) : Prop where
  own : a.truth = .empty
  name : a.isNamed = false

theorem Nameless.not_given (h : Nameless a) : ¬ Given atoms a := by
  rintro ⟨t, ht | ⟨b, -, hstates⟩⟩
  · rw [h.own] at ht
    cases ht
  · have hnamed := hstates.named
    unfold Atom.isNamed at hnamed
    rw [hstates.name] at hnamed
    exact absurd hnamed (ne_true_of_eq_false h.name)

/-- A conclusion from an antecedent without a name has an earlier one with its type and its name as
its premise. -/
theorem Nameless.exists_premise {log : List Entry} {i : Nat} {d : Derivation} (h : Nameless a)
    (hplace : (atoms.filter Atom.isRule)[i]? = some rule) (hrule : RuleOf atoms rule a c)
    (hd : Dated atoms log i d) : ∃ j e, (j, e) ∈ log ∧ e.type = a.type ∧ e.name = a.name ∧
      d.depth = roundAfter j i e.depth := by
  have hsame {b : Atom} (hfrom : From atoms i d b) : b = a := by
    obtain ⟨hplace', hrule', -, -, -, -⟩ := hfrom
    cases hplace.symm.trans hplace'
    exact (hrule.unique hrule').1
  cases hd with
  | given hfrom ha => exact absurd (hsame hfrom ▸ ha) h.not_given
  | @concluded b j e hfrom _ he htype hname hdepth =>
    cases hsame hfrom
    exact ⟨j, e, he, htype, hname, hdepth⟩

theorem Dated.exists_from {log : List Entry} {i : Nat} {d : Derivation} (h : Dated atoms log i d) :
    ∃ a, From atoms i d a := by
  cases h with
  | given hfrom => exact ⟨_, hfrom⟩
  | concluded hfrom => exact ⟨_, hfrom⟩

theorem le_roundAfter (j i r : Nat) : r ≤ roundAfter j i r := by
  unfold roundAfter
  split <;> omega

/-- The rule at place `i` is tried then after the one at place `j`. -/
theorem before_roundAfter (j i r : Nat) : Before r j (roundAfter j i r) i := by
  unfold roundAfter Before
  split <;> omega

/-- After the last round, the consequent of a rule is concluded if its antecedent had been by then
and a round within the limit was left for it. -/
theorem Progress.concluded_of_premise {decay : Float} {stated : Facts} {s : State}
    {log : List Entry} {i j r n : Nat} {e : Derivation}
    (h : Progress decay atoms stated (r + 1) 0 s log)
    (hclosed : ∀ q, 0 < q → q ≤ n → (∀ d ∈ s.derived.values, d.depth ≠ q) →
      Closed atoms s.derived.values)
    (hplace : (atoms.filter Atom.isRule)[i]? = some rule) (hrule : RuleOf atoms rule a c)
    (he : (j, e) ∈ log) (htype : e.type = a.type) (hname : e.name = a.name)
    (hlate : roundAfter j i e.depth ≤ n) : Concluded s.derived.values c.type c.name := by
  obtain ⟨hpos, -⟩ := h.past _ he
  have hlow : 1 ≤ roundAfter j i e.depth := Nat.le_trans hpos (le_roundAfter j i e.depth)
  by_cases hdone : roundAfter j i e.depth ≤ r
  · -- The rule has been tried in that round.
    exact h.tried hlow (.inl (by omega)) hplace hrule
      (.inr ⟨_, he, htype, hname, before_roundAfter j i e.depth⟩)
  · -- The rounds have ended before, since one of them added nothing.
    have hmem : e ∈ s.derived.values := h.entries ▸ List.mem_map_of_mem he
    refine hclosed (roundAfter j i e.depth) hlow hlate (fun x hx hdepth => ?_) hrule
      (.inr ⟨e, hmem, htype, hname⟩)
    rw [← h.entries] at hx
    obtain ⟨y, hy, rfl⟩ := List.mem_map.1 hx
    obtain ⟨-, hbefore⟩ := h.past y hy
    unfold Before at hbefore
    omega

/-! ## Whole deductions -/

/-- **Antecedents without a name.** From knowledge with any names and under any settings, a rule
whose antecedent has neither a truth value nor a name concludes something only from an earlier
conclusion with the type and the name of the antecedent, so nothing at all where no rule leads to
such a one. But such a conclusion does establish the antecedent: the consequent is concluded if there
is a round left for it. -/
theorem deduction_nameless (hatoms : ∀ a ∈ atoms, a.IsKnowledge)
    (hlimit : config.maxDepth.whole = .ok limit) {answer : Answer}
    (hanswer : (do (← ofAtoms config atoms).answer config) = .ok answer) :
    ∃ log : List Entry, answer.conclusion = log.map (fun e => e.2.toAtom) ∧
      (∀ e ∈ log, ∃ a, From atoms e.1 e.2 a) ∧
      ∀ {i : Nat} {rule a c : Atom}, (atoms.filter Atom.isRule)[i]? = some rule →
        RuleOf atoms rule a c → Nameless a →
        (∀ d, (i, d) ∈ log → ∃ j e, (j, e) ∈ log ∧ e.type = a.type ∧ e.name = a.name ∧
          d.depth = roundAfter j i e.depth) ∧
        ((∀ {rule' a' c' : Atom}, RuleOf atoms rule' a' c' → c'.type = a.type → c'.name ≠ a.name) →
          ∀ d, (i, d) ∉ log) ∧
        ∀ j e, (j, e) ∈ log → e.type = a.type → e.name = a.name →
          (roundAfter j i e.depth : Int) ≤ limit → Concluded (log.map Prod.snd) c.type c.name := by
  obtain ⟨d, hofAtoms, hanswer⟩ := Except.bind_eq_ok.1 hanswer
  have hconclusion := conclusion_of_answer hanswer
  by_cases hnone : d.derivations = []
  · rw [hnone] at hconclusion
    exact ⟨[], hconclusion, nofun, fun _ _ _ => ⟨nofun, fun _ _ => nofun, nofun⟩⟩
  obtain ⟨decay, hdecay⟩ := exists_decay hofAtoms hnone
  obtain ⟨stated, hstated, hcover⟩ := knownFacts_cover hatoms
  obtain ⟨r, s, log, hrounds, hr, h⟩ := rounds_progress hcover hdecay hatoms limit.toNat
    (Progress.start decay atoms stated)
  obtain ⟨s', hrounds', -, -, -, hclosed⟩ := rounds_spec hcover hdecay hatoms limit.toNat
    (Invariant.start decay atoms stated) (covers_zero atoms _)
  cases hrounds.symm.trans hrounds'
  cases hofAtoms.symm.trans (ofAtoms_eq hstated hlimit hrounds)
  have hentries := h.entries
  dsimp only at hconclusion
  rw [← hentries, List.map_map] at hconclusion
  have hfrom : ∀ e ∈ log, ∃ a, From atoms e.1 e.2 a := fun e he => (h.orderly.dated he).exists_from
  refine ⟨log, hconclusion, hfrom, fun {i rule a c} hplace hrule ha => ?_⟩
  have hpremise : ∀ d, (i, d) ∈ log → ∃ j e, (j, e) ∈ log ∧ e.type = a.type ∧ e.name = a.name ∧
      d.depth = roundAfter j i e.depth :=
    fun d hd => ha.exists_premise hplace hrule (h.orderly.dated hd)
  refine ⟨hpremise, fun hother d hd => ?_, fun j e he htype hname hlate => ?_⟩
  · obtain ⟨j, e, he, htype, hname, -⟩ := hpremise d hd
    obtain ⟨b, -, hrule', htype', hname', -, -⟩ := hfrom _ he
    exact hother hrule' (htype'.symm.trans htype) (hname'.symm.trans hname)
  · rw [hentries]
    exact h.concluded_of_premise (n := limit.toNat) (fun q hlow hhigh => hclosed q hlow (by omega))
      hplace hrule he htype hname (by omega)

/-- Something of which only the type is known. -/
def nameless : Atom := .make .conceptNode .null none [] []

/-- Rain leads to something, and something leads to a flood. -/
def stormy : List Atom :=
  [.make .implicationLink .null none [] [.make .conceptNode (.text "rain") (some ⟨1, 1⟩) [] [],
      nameless],
    .make .implicationLink .null none [] [nameless, concept "flood"]]

theorem isKnowledge_stormy : ∀ a ∈ stormy, a.IsKnowledge := by
  have hrain : Atom.IsKnowledge (.make .conceptNode (.text "rain") (some ⟨1, 1⟩) [] []) :=
    .intro ⟨⟨_, rfl⟩, .inr ⟨_, rfl⟩, .known trivial⟩ (fun _ h => nomatch h) fun _ h => nomatch h
  have hnameless : nameless.IsKnowledge :=
    .intro ⟨⟨_, rfl⟩, .inl rfl, .empty⟩ (fun _ h => nomatch h) fun _ h => nomatch h
  unfold stormy
  rw [List.forall_mem_cons, List.forall_mem_singleton]
  exact ⟨isKnowledge_rule hrain hnameless, isKnowledge_rule hnameless (isKnowledge_concept _)⟩

/-- It is the conclusion without a name that leads to the flood. -/
theorem deduction_nameless_stormy :
    ∃ (log : List Entry) (answer : Answer), (do (← ofAtoms {} stormy).answer {}) = .ok answer ∧
      answer.conclusion = log.map (fun e => e.2.toAtom) ∧
      answer.conclusion.map Atom.name = [.null, .text "flood"] ∧
      ∀ d, (1, d) ∈ log → ∃ j e, (j, e) ∈ log ∧ e.name = .null := by
  obtain ⟨answer, hanswer, hnames⟩ : ∃ answer,
      (do (← ofAtoms {} stormy).answer {}) = .ok answer ∧
        answer.conclusion.map Atom.name = [.null, .text "flood"] := by
    obtain ⟨d, hofAtoms, hnames⟩ : ∃ d, ofAtoms {} stormy = .ok d ∧
        d.derivations.map (·.name) = [.null, .text "flood"] := ⟨_, rfl, rfl⟩
    obtain ⟨answer, hanswer, hconclusion⟩ := answer_spec
      (show ({} : ReasoningConfig).deductiveCeiling.operand = .ok 0.95 from rfl)
      (names_ofAtoms isKnowledge_stormy hofAtoms)
    refine ⟨answer, by rw [hofAtoms]; exact hanswer, ?_⟩
    rw [hconclusion, List.map_map]
    exact hnames
  obtain ⟨log, hconclusion, -, hrules⟩ := deduction_nameless isKnowledge_stormy
    (show ({} : ReasoningConfig).maxDepth.whole = .ok 3 from rfl) hanswer
  have hplace : (stormy.filter Atom.isRule)[1]? =
      some (.make .implicationLink .null none [] [nameless, concept "flood"]) := rfl
  have hrule : RuleOf stormy (.make .implicationLink .null none [] [nameless, concept "flood"])
      nameless (concept "flood") := ⟨List.mem_cons_of_mem _ List.mem_cons_self, rfl, [], rfl⟩
  obtain ⟨hpremise, -, -⟩ := hrules hplace hrule ⟨rfl, rfl⟩
  refine ⟨log, answer, hanswer, hconclusion, hnames, fun d hd => ?_⟩
  obtain ⟨j, e, he, -, hname, -⟩ := hpremise d hd
  exact ⟨j, e, he, hname⟩

end KnowledgeGraph.Deduction
