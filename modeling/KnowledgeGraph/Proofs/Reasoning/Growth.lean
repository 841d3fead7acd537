import KnowledgeGraph.Proofs.Reasoning.Depth

/-!
# Deduction grows with the knowledge

More knowledge never loses a conclusion (`deduction_mono`). A deduction from some of the atoms and
one from all of them go on in step, rule by rule and round by round, and whatever the one concludes
the other has concluded by then (`Subsumed`): by the same rule, or by another one before it. Only the
rounds may end apart. If those of the smaller run end first, the larger one only adds to what it has;
if those of the larger run end first, its conclusions are closed under all rules, and the smaller one
cannot leave them any more.
-/

namespace KnowledgeGraph.Deduction

variable {config : ReasoningConfig} {decay : Float} {atoms atoms' : List Atom}
  {stated stated' : Facts} {rule a c : Atom} {s s' t t' : State} {ds es fs : List Derivation}
  {depth : Nat}

/-! ## More knowledge -/

theorem RuleOf.mono (hsub : atoms ⊆ atoms') (h : RuleOf atoms rule a c) : RuleOf atoms' rule a c :=
  ⟨hsub h.mem, h.type, h.parts⟩

theorem Given.mono (hsub : atoms ⊆ atoms') (h : Given atoms a) : Given atoms' a := by
  obtain ⟨t, ht | ⟨b, hb, hstates⟩⟩ := h
  · exact ⟨t, .inl ht⟩
  · exact ⟨t, .inr ⟨b, hb.mono fun _ => (List.map_subset _ hsub ·), hstates⟩⟩

theorem Premise.established {u : TruthValue} (h : Premise atoms ds a u) :
    Given atoms a ∨ Concluded ds a.type a.name := by
  cases h with
  | own h => exact .inl ⟨u, .inl h⟩
  | stated _ h => exact .inl ⟨u, .inr h⟩
  | concluded _ _ hd htype hname => exact .inr ⟨_, hd, htype, hname⟩

/-- Whatever type and name are concluded here are concluded there. -/
def Subsumed (ds es : List Derivation) : Prop :=
  ∀ type name, Concluded ds type name → Concluded es type name

theorem Subsumed.extends (h : Subsumed ds s.derived.values) (hext : Extends depth s s') :
    Subsumed ds s'.derived.values :=
  fun type name hds => (h type name hds).mono hext

/-- A rule that is applied adds at most its consequent, and only if the antecedent is established. -/
theorem Applied.subsumed (h : Applied atoms depth rule a c s t)
    (hsub : Subsumed s.derived.values es)
    (hc : Given atoms a ∨ Concluded s.derived.values a.type a.name → Concluded es c.type c.name) :
    Subsumed t.derived.values es := by
  cases h with
  | rests => exact hsub
  | concludes _ hu htype hname =>
    rintro type name ⟨d, hd, rfl, rfl⟩
    rw [Table.values_append] at hd
    rcases List.mem_append.1 hd with hd | hd
    · exact hsub _ _ ⟨d, hd, rfl, rfl⟩
    · cases List.mem_singleton.1 hd
      rw [htype, hname]
      exact hc hu.established

/-! ## One run -/

section OneRun

variable (hcover : stated.Cover (Stated atoms)) (hdecay : config.deductiveDecay.operand = .ok decay)
  (hatoms : ∀ a ∈ atoms, a.IsKnowledge)

include hcover hdecay hatoms

theorem Invariant.applied (hs : Invariant decay atoms stated s)
    (hmem : rule ∈ atoms.filter Atom.isRule) (h : applyRule config depth s rule = .ok t) :
    Invariant decay atoms stated t ∧ ∃ a c, RuleOf atoms rule a c ∧ Applied atoms depth rule a c s t := by
  obtain ⟨a, c, hrule⟩ := (rules_spec hatoms rule).1 hmem
  obtain ⟨t', happly, ht', happlied⟩ :=
    hs.applyRule_applied hcover hdecay hrule (hatoms _ hrule.mem) depth
  cases h.symm.trans happly
  exact ⟨ht', a, c, hrule, happlied⟩

theorem rounds_extend {left : Nat} (hs : Invariant decay atoms stated s)
    (hsub : Subsumed ds s.derived.values)
    (h : rounds config (atoms.filter Atom.isRule) left depth s = .ok t) :
    Subsumed ds t.derived.values := by
  refine (rounds_keeps (P := fun t => Invariant decay atoms stated t ∧ Subsumed ds t.derived.values)
    (fun rule hrule {_ u v} hu happly => ?_) left ⟨hs, hsub⟩ h).2
  obtain ⟨hv, a, c, -, happlied⟩ := hu.1.applied hcover hdecay hatoms hrule happly
  exact ⟨hv, hu.2.extends happlied.extends⟩

/-- Rounds do not leave conclusions that are closed under the rules. -/
theorem rounds_within {left : Nat} (hs : Invariant decay atoms stated s)
    (hsub : Subsumed s.derived.values es) (hclosed : Closed atoms es)
    (h : rounds config (atoms.filter Atom.isRule) left depth s = .ok t) :
    Subsumed t.derived.values es := by
  refine (rounds_keeps (P := fun t => Invariant decay atoms stated t ∧ Subsumed t.derived.values es)
    (fun rule hrule {_ u v} hu happly => ?_) left ⟨hs, hsub⟩ h).2
  obtain ⟨hv, a, c, hrule, happlied⟩ := hu.1.applied hcover hdecay hatoms hrule happly
  exact ⟨hv, happlied.subsumed hu.2 fun ha => hclosed hrule (ha.imp_right (hu.2 _ _))⟩

end OneRun

/-! ## Two runs in step -/

section TwoRuns

variable (hcover : stated.Cover (Stated atoms)) (hcover' : stated'.Cover (Stated atoms'))
  (hdecay : config.deductiveDecay.operand = .ok decay) (hatoms : ∀ a ∈ atoms, a.IsKnowledge)
  (hatoms' : ∀ a ∈ atoms', a.IsKnowledge) (hsub : atoms ⊆ atoms')

include hcover hcover' hdecay hatoms hatoms' hsub

/-- Where both runs apply a rule, what the smaller one concludes the larger one has concluded. -/
theorem applyRule_subsumed (hs : Invariant decay atoms stated s)
    (hs' : Invariant decay atoms' stated' s') (hle : Subsumed s.derived.values s'.derived.values)
    (hmem : rule ∈ atoms.filter Atom.isRule) (hmem' : rule ∈ atoms'.filter Atom.isRule)
    (h : applyRule config depth s rule = .ok t) (h' : applyRule config depth s' rule = .ok t') :
    Subsumed t.derived.values t'.derived.values := by
  obtain ⟨-, a, c, hrule, happlied⟩ := hs.applied hcover hdecay hatoms hmem h
  obtain ⟨-, a', c', hrule', happlied'⟩ := hs'.applied hcover' hdecay hatoms' hmem' h'
  obtain ⟨rfl, rfl⟩ := (hrule.mono hsub).unique hrule'
  refine happlied.subsumed (hle.extends happlied'.extends) fun ha => ?_
  exact happlied'.concluded (ha.imp (Given.mono hsub) (hle _ _))

/-- A round of both runs. The induction is on how the rules of the one lie among those of the
other. -/
theorem applyRules_subsumed {rules rules' : List Atom} (hrules : rules.Sublist rules')
    (hmem : ∀ rule ∈ rules, rule ∈ atoms.filter Atom.isRule)
    (hmem' : ∀ rule ∈ rules', rule ∈ atoms'.filter Atom.isRule) :
    ∀ {s s' t t' : State}, Invariant decay atoms stated s → Invariant decay atoms' stated' s' →
      Subsumed s.derived.values s'.derived.values → applyRules config depth s rules = .ok t →
      applyRules config depth s' rules' = .ok t' →
      Invariant decay atoms stated t ∧ Invariant decay atoms' stated' t' ∧
        Subsumed t.derived.values t'.derived.values := by
  induction hrules with
  | slnil =>
    rintro s s' _ _ hs hs' hle ⟨⟩ ⟨⟩
    exact ⟨hs, hs', hle⟩
  | cons rule _ ih =>
    intro s s' t t' hs hs' hle h h'
    obtain ⟨u', hu', h'⟩ := Except.bind_eq_ok.1 h'
    obtain ⟨hinv', a, c, -, happlied'⟩ :=
      hs'.applied hcover' hdecay hatoms' (hmem' rule List.mem_cons_self) hu'
    exact ih hmem (fun r hr => hmem' r (List.mem_cons_of_mem _ hr)) hs hinv'
      (hle.extends happlied'.extends) h h'
  | cons_cons rule _ ih =>
    intro s s' t t' hs hs' hle h h'
    obtain ⟨u, hu, h⟩ := Except.bind_eq_ok.1 h
    obtain ⟨u', hu', h'⟩ := Except.bind_eq_ok.1 h'
    have hfirst := hmem rule List.mem_cons_self
    have hfirst' := hmem' rule List.mem_cons_self
    have hle' := applyRule_subsumed hcover hcover' hdecay hatoms hatoms' hsub hs hs' hle hfirst
      hfirst' hu hu'
    exact ih (fun r hr => hmem r (List.mem_cons_of_mem _ hr))
      (fun r hr => hmem' r (List.mem_cons_of_mem _ hr)) (hs.applied hcover hdecay hatoms hfirst hu).1
      (hs'.applied hcover' hdecay hatoms' hfirst' hu').1 hle' h h'

/-- The rounds of both runs. The induction is on the number of rounds that are left; a round may be
the last one of either run, or of none. -/
theorem rounds_subsumed (hrules : (atoms.filter Atom.isRule).Sublist (atoms'.filter Atom.isRule)) :
    ∀ (left : Nat) {depth : Nat} {s s' t t' : State}, Invariant decay atoms stated s →
      Invariant decay atoms' stated' s' → Subsumed s.derived.values s'.derived.values →
      rounds config (atoms.filter Atom.isRule) left depth s = .ok t →
      rounds config (atoms'.filter Atom.isRule) left depth s' = .ok t' →
      Subsumed t.derived.values t'.derived.values := by
  intro left
  induction left with
  | zero =>
    rintro depth s s' _ _ hs hs' hle ⟨⟩ ⟨⟩
    exact hle
  | succ left ih =>
    intro depth s s' t t' hs hs' hle h h'
    obtain ⟨u, hu, h⟩ := Except.bind_eq_ok.1 h
    obtain ⟨u', hu', h'⟩ := Except.bind_eq_ok.1 h'
    obtain ⟨hinv, hinv', hle'⟩ := applyRules_subsumed hcover hcover' hdecay hatoms hatoms' hsub hrules
      (fun _ hr => hr) (fun _ hr => hr) hs hs' hle hu hu'
    split at h'
    · rename_i hlast'
      cases h'
      have hclosed : Closed atoms' t'.derived.values :=
        closed_of_unchanged hcover' hdecay hatoms' hs' hu' hlast'
      split at h
      · cases h
        exact hle'
      · exact rounds_within hcover hdecay hatoms hinv hle' (fun hrule ha =>
          hclosed (hrule.mono hsub) (ha.imp_left (Given.mono hsub))) h
    · split at h
      · cases h
        exact rounds_extend hcover' hdecay hatoms' hinv' hle' h'
      · exact ih hinv hinv' hle' h h'

end TwoRuns

/-! ## Whole deductions -/

/-- **More knowledge never loses a conclusion.** Under any settings, what is concluded from some atoms
is concluded, with its type and name, from any list of atoms that they can be got from by leaving
others out. There is an answer to state it, at least where the ceiling is a float or can be made
one. -/
theorem deduction_mono (hatoms' : ∀ a ∈ atoms', a.IsKnowledge) (hsub : atoms.Sublist atoms')
    {answer : Answer} (hanswer : (do (← ofAtoms config atoms).answer config) = .ok answer)
    {b : Atom} (hb : b ∈ answer.conclusion) :
    ∃ d', ofAtoms config atoms' = .ok d' ∧
      (∀ ceiling, config.deductiveCeiling.operand = .ok ceiling →
        ∃ answer', d'.answer config = .ok answer') ∧
      ∀ answer', d'.answer config = .ok answer' →
        ∃ b' ∈ answer'.conclusion, b'.type = b.type ∧ b'.name = b.name := by
  obtain ⟨d, hofAtoms, hanswer⟩ := Except.bind_eq_ok.1 hanswer
  rw [conclusion_of_answer hanswer] at hb
  obtain ⟨x, hx, rfl⟩ := List.mem_map.1 hb
  obtain ⟨decay, hdecay⟩ := exists_decay hofAtoms (List.ne_nil_of_mem hx)
  obtain ⟨stated, limit, s, hstated, hlimit, hrounds, rfl⟩ := ofAtoms_eq_ok.1 hofAtoms
  have hatoms : ∀ a ∈ atoms, a.IsKnowledge := fun a ha => hatoms' a (hsub.subset ha)
  obtain ⟨facts, hfacts, hcover⟩ := knownFacts_cover hatoms
  cases hstated.symm.trans hfacts
  obtain ⟨stated', hstated', hcover'⟩ := knownFacts_cover hatoms'
  obtain ⟨s', hrounds', hs', -⟩ := rounds_spec hcover' hdecay hatoms' limit.toNat
    (Invariant.start decay atoms' stated') (covers_zero atoms' _)
  have hle := rounds_subsumed hcover hcover' hdecay hatoms hatoms' hsub.subset
    (hsub.filter Atom.isRule) limit.toNat (.start decay atoms stated) (.start decay atoms' stated')
    (fun _ _ h => h) hrounds hrounds'
  obtain ⟨x', hx', htype, hname⟩ := hle _ _ ⟨x, hx, rfl, rfl⟩
  refine ⟨_, ofAtoms_eq hstated' hlimit hrounds', fun ceiling hceiling => ?_,
    fun answer' hanswer' => ⟨x'.toAtom, ?_, htype, hname⟩⟩
  · obtain ⟨answer', hanswer', -⟩ := answer_spec hceiling
      (d := ⟨(atoms'.filter Atom.isRule).length, s'.derived.values⟩) (hs'.names hatoms')
    exact ⟨answer', hanswer'⟩
  · rw [conclusion_of_answer hanswer']
    exact List.mem_map_of_mem hx'

/-- Where slippery makes wet, too, it is slippery as it is when it just rains. -/
theorem deduction_mono_rainy :
    ∃ answer', (do (← ofAtoms {} (makes "slippery" "wet" :: rainy)).answer {}) = .ok answer' ∧
      ∃ b' ∈ answer'.conclusion, b'.type = .text "ConceptNode" ∧ b'.name = .text "slippery" := by
  have hatoms' : ∀ a ∈ makes "slippery" "wet" :: rainy, a.IsKnowledge :=
    List.forall_mem_cons.2 ⟨isKnowledge_makes _ _, isKnowledge_rainy⟩
  have hceiling : ({} : ReasoningConfig).deductiveCeiling.operand = .ok 0.95 := rfl
  obtain ⟨d, hofAtoms, wet, slippery, hds, htype, hname⟩ : ∃ d, ofAtoms {} rainy = .ok d ∧
      ∃ wet slippery, d.derivations = [wet, slippery] ∧
        slippery.type = .text "ConceptNode" ∧ slippery.name = .text "slippery" :=
    ⟨_, rfl, _, _, rfl, rfl, rfl⟩
  obtain ⟨answer, hanswer, hconclusion⟩ := answer_spec hceiling (names_ofAtoms isKnowledge_rainy hofAtoms)
  have hb : slippery.toAtom ∈ answer.conclusion := by
    rw [hconclusion, hds]
    exact List.mem_cons_of_mem _ List.mem_cons_self
  obtain ⟨d', hofAtoms', hreturns, hall⟩ := deduction_mono hatoms'
    (List.sublist_cons_self _ _) (by rw [hofAtoms]; exact hanswer) hb
  obtain ⟨answer', hanswer'⟩ := hreturns _ hceiling
  obtain ⟨b', hb', htype', hname'⟩ := hall answer' hanswer'
  exact ⟨answer', by rw [hofAtoms']; exact hanswer', b', hb', htype'.trans htype,
    hname'.trans hname⟩

end KnowledgeGraph.Deduction
