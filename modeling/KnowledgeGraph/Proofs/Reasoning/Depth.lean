import Mathlib.Data.List.Pairwise
import KnowledgeGraph.Proofs.Reasoning.Deduction

/-!
# The depth of conclusions

A round tries all rules in their order, and a conclusion is known from then on. A rule that needs the
conclusion of one before it therefore follows in the same round, and one that needs the conclusion of
a rule after it in the next. So the depth of a conclusion is the number of rounds that the rules of
its chain take (`Chain`, `roundsOf`, `deduction_depths`), which may be less than their number: chains
longer than the limit are concluded too.
-/

namespace KnowledgeGraph.Deduction

/-! ## Chains and rounds -/

/-- A conclusion with the place of its rule among the rules. -/
abbrev Entry := Nat × Derivation

/-- The rule at a place concludes this from the antecedent. -/
inductive From (atoms : List Atom) (i : Nat) (d : Derivation) (a : Atom) : Prop
  | intro {rule c : Atom} (hplace : (atoms.filter Atom.isRule)[i]? = some rule)
    (hrule : RuleOf atoms rule a c) (htype : d.type = c.type) (hname : d.name = c.name)
    (hlabel : d.rule = rule.ruleLabel) (hpremise : d.premise = a.name)

/-- The rules at the places, the last one first, lead from an antecedent that the knowledge
establishes to a conclusion; each of the others needs what the one before it concludes. -/
inductive Chain (atoms : List Atom) (log : List Entry) : List Nat → Derivation → Prop
  | first {i : Nat} {d : Derivation} {a : Atom} (hd : (i, d) ∈ log) (hfrom : From atoms i d a)
    (ha : Given atoms a) : Chain atoms log [i] d
  | next {i j : Nat} {places : List Nat} {d e : Derivation} {a : Atom} (hd : (i, d) ∈ log)
    (hfrom : From atoms i d a) (ha : ¬ Given atoms a) (he : Chain atoms log (j :: places) e)
    (htype : e.type = a.type) (hname : e.name = a.name) : Chain atoms log (i :: j :: places) d

/-- The round in which the rule at place `i` follows what the one at place `j` concluded in round
`r`. -/
def roundAfter (j i r : Nat) : Nat := if j < i then r else r + 1

/-- How many rounds the rules of a chain take. -/
def roundsOf : List Nat → Nat
  | [] => 0
  | [_] => 1
  | i :: j :: places => roundAfter j i (roundsOf (j :: places))

theorem roundsOf_le_length (places : List Nat) : roundsOf places ≤ places.length := by
  induction places with
  | nil => exact Nat.le_refl 0
  | cons i rest ih =>
    cases rest with
    | nil => exact Nat.le_refl 1
    | cons j places =>
      rw [roundsOf, roundAfter, List.length_cons]
      split <;> omega

variable {atoms : List Atom} {log earlier : List Entry} {i j r : Nat} {places : List Nat}
  {d e : Derivation} {rule a b c : Atom}

theorem From.unique (h : From atoms i d a) (h' : From atoms i d b) : b = a := by
  obtain ⟨hplace, hrule, -, -, -, -⟩ := h
  obtain ⟨hplace', hrule', -, -, -, -⟩ := h'
  rw [hplace, Option.some.injEq] at hplace'
  subst hplace'
  exact (hrule.unique hrule').1

theorem Chain.mem (h : Chain atoms log (i :: places) d) : (i, d) ∈ log := by
  cases h with
  | first hd => exact hd
  | next hd => exact hd

theorem Chain.mono (hsub : earlier ⊆ log) (h : Chain atoms earlier places d) :
    Chain atoms log places d := by
  induction h with
  | first hd hfrom ha => exact .first (hsub hd) hfrom ha
  | next hd hfrom ha _ htype hname ih => exact .next (hsub hd) hfrom ha ih htype hname

/-! ## Dated conclusions -/

/-- A conclusion has the depth that its premise gives it. -/
inductive Dated (atoms : List Atom) (earlier : List Entry) (i : Nat) (d : Derivation) : Prop
  | given {a : Atom} (hfrom : From atoms i d a) (ha : Given atoms a) (hdepth : d.depth = 1)
  | concluded {a : Atom} {j : Nat} {e : Derivation} (hfrom : From atoms i d a)
    (ha : ¬ Given atoms a) (he : (j, e) ∈ earlier) (htype : e.type = a.type)
    (hname : e.name = a.name) (hdepth : d.depth = roundAfter j i e.depth)

/-- Each conclusion has the depth that its premise among the ones before gives it. -/
inductive Orderly (atoms : List Atom) : List Entry → Prop
  | nil : Orderly atoms []
  | snoc {log : List Entry} {i : Nat} {d : Derivation} (h : Orderly atoms log)
    (hd : Dated atoms log i d) : Orderly atoms (log ++ [(i, d)])

theorem Dated.mono (hsub : earlier ⊆ log) (h : Dated atoms earlier i d) : Dated atoms log i d := by
  cases h with
  | given hfrom ha hdepth => exact .given hfrom ha hdepth
  | concluded hfrom ha he htype hname hdepth =>
    exact .concluded hfrom ha (hsub he) htype hname hdepth

theorem Orderly.dated (h : Orderly atoms log) (hd : (i, d) ∈ log) : Dated atoms log i d := by
  induction h with
  | nil => cases hd
  | snoc _ hlast ih =>
    rcases List.mem_append.1 hd with hd | hd
    · exact (ih hd).mono (List.subset_append_left _ _)
    · cases List.mem_singleton.1 hd
      exact hlast.mono (List.subset_append_left _ _)

theorem Orderly.exists_chain (h : Orderly atoms log) (hd : (i, d) ∈ log) :
    ∃ places, Chain atoms log (i :: places) d := by
  induction h generalizing i d with
  | nil => cases hd
  | @snoc log k x _ hlast ih =>
    have hsub := List.subset_append_left log [(k, x)]
    rcases List.mem_append.1 hd with hd | hd
    · obtain ⟨places, hchain⟩ := ih hd
      exact ⟨places, hchain.mono hsub⟩
    · cases List.mem_singleton.1 hd
      have hmem : (k, x) ∈ log ++ [(k, x)] := List.mem_append_right _ List.mem_cons_self
      cases hlast with
      | given hfrom ha => exact ⟨[], .first hmem hfrom ha⟩
      | @concluded a j e hfrom ha he htype hname =>
        obtain ⟨places, hchain⟩ := ih he
        exact ⟨j :: places, .next hmem hfrom ha (hchain.mono hsub) htype hname⟩

/-- Where no two conclusions have the type and the name in common, each has the depth of its
chain. -/
theorem Orderly.depth_eq (h : Orderly atoms log)
    (hdistinct : log.Pairwise fun x y => x.2.type = y.2.type → x.2.name ≠ y.2.name)
    (hchain : Chain atoms log places d) : d.depth = roundsOf places := by
  induction hchain with
  | first hd hfrom ha =>
    cases h.dated hd with
    | given _ _ hdepth => exact hdepth
    | concluded hfrom' hopen => exact absurd (hfrom'.unique hfrom ▸ ha) hopen
  | @next i j places d e a hd hfrom hopen he htype hname ih =>
    cases h.dated hd with
    | given hfrom' ha => exact absurd (hfrom.unique hfrom' ▸ ha) hopen
    | @concluded b j' e' hfrom' _ he' htype' hname' hdepth =>
      cases hfrom.unique hfrom'
      have heq : (j', e') = (j, e) := by
        by_contra hne
        have hsymm : Std.Symm fun x y : Entry => x.2.type = y.2.type → x.2.name ≠ y.2.name :=
          ⟨fun _ _ hxy ht hn => hxy ht.symm hn.symm⟩
        exact hdistinct.forall he' he.mem hne (htype'.trans htype.symm) (hname'.trans hname.symm)
      cases heq
      rw [hdepth, ih, roundsOf]

/-! ## Tries -/

/-- The try of the rule at place `i` in round `r` comes before the other one. -/
def Before (r i r' i' : Nat) : Prop := r < r' ∨ r = r' ∧ i < i'

/-- What holds of the state and its conclusions when the rule at place `i` is tried next in round
`r`: the conclusions have the depths that their premises give them and come from earlier tries, and every
earlier try of a rule whose antecedent was established by then has concluded it. -/
structure Progress (decay : Float) (atoms : List Atom) (stated : Facts) (r i : Nat) (s : State)
    (log : List Entry) : Prop where
  state : Invariant decay atoms stated s
  entries : log.map Prod.snd = s.derived.values
  orderly : Orderly atoms log
  past : ∀ e ∈ log, 1 ≤ e.2.depth ∧ Before e.2.depth e.1 r i
  tried : ∀ {q k : Nat} {rule a c : Atom}, 1 ≤ q → Before q k r i →
    (atoms.filter Atom.isRule)[k]? = some rule → RuleOf atoms rule a c →
    (Given atoms a ∨ ∃ e ∈ log, e.2.type = a.type ∧ e.2.name = a.name ∧ Before e.2.depth e.1 q k) →
    Concluded s.derived.values c.type c.name

variable {config : ReasoningConfig} {decay : Float} {stated : Facts} {s s' : State}

theorem Progress.start (decay : Float) (atoms : List Atom) (stated : Facts) :
    Progress decay atoms stated 1 0 ⟨stated, []⟩ [] := by
  refine ⟨.start decay atoms stated, rfl, .nil, nofun, fun {q k _ _ _} hq hbefore => ?_⟩
  unfold Before at hbefore
  omega

namespace Progress

variable (h : Progress decay atoms stated r i s log)

include h

theorem nextRound (hi : (atoms.filter Atom.isRule).length ≤ i) :
    Progress decay atoms stated (r + 1) 0 s log := by
  refine ⟨h.state, h.entries, h.orderly, fun e he => ?_, fun {q k _ _ _} hq hbefore hplace => ?_⟩
  · obtain ⟨hpos, hbefore⟩ := h.past e he
    unfold Before at hbefore ⊢
    omega
  · obtain ⟨hk, -⟩ := List.getElem?_eq_some_iff.1 hplace
    refine h.tried hq ?_ hplace
    unfold Before at hbefore ⊢
    omega

/-- A conclusion that is new has the depth that its premise gives it: if the antecedent had been
established by the last try of the rule, it would have been concluded then. -/
theorem dated (hr : 1 ≤ r) (hplace : (atoms.filter Atom.isRule)[i]? = some rule)
    (hrule : RuleOf atoms rule a c) (hnew : ¬ Concluded s.derived.values c.type c.name)
    {u : TruthValue} (hu : Premise atoms s.derived.values a u) (hfrom : From atoms i d a)
    (hdepth : d.depth = r) : Dated atoms log i d := by
  have hfirst : Given atoms a → d.depth = 1 := by
    intro ha
    by_contra hlater
    exact hnew (h.tried (show 1 ≤ r - 1 by omega) (.inl (by omega)) hplace hrule (.inl ha))
  cases hu with
  | own hown => exact .given hfrom ⟨u, .inl hown⟩ (hfirst ⟨u, .inl hown⟩)
  | stated _ hstated => exact .given hfrom ⟨u, .inr hstated⟩ (hfirst ⟨u, .inr hstated⟩)
  | concluded hown hstated hd htype hname =>
    rw [← h.entries] at hd
    obtain ⟨⟨j, e⟩, he, rfl⟩ := List.mem_map.1 hd
    obtain ⟨hpos, hbefore⟩ := h.past _ he
    have hopen : ¬ Given atoms a := by
      rintro ⟨t, ht | ht⟩
      · rw [hown] at ht
        cases ht
      · exact hstated t ht
    change 1 ≤ e.depth at hpos
    change Before e.depth j r i at hbefore
    have hlate : ¬ Before e.depth j (r - 1) i := by
      intro hearly
      have hq : 1 ≤ r - 1 := by
        unfold Before at hearly
        omega
      exact hnew (h.tried hq (.inl (by omega)) hplace hrule
        (.inr ⟨_, he, htype, hname, hearly⟩))
    refine .concluded hfrom hopen he htype hname ?_
    unfold Before at hbefore hlate
    unfold roundAfter
    split <;> omega

theorem advance (hplace : (atoms.filter Atom.isRule)[i]? = some rule)
    (hrule : RuleOf atoms rule a c) (hr : 1 ≤ r) (hs' : Invariant decay atoms stated s')
    (hext : Extends r s s') (hconcluded : Given atoms a ∨ Concluded s.derived.values a.type a.name →
      Concluded s'.derived.values c.type c.name) (new : List Entry)
    (hnew : ∀ e ∈ new, e.1 = i ∧ e.2.depth = r)
    (hentries : (log ++ new).map Prod.snd = s'.derived.values) (horderly : Orderly atoms (log ++ new)) :
    Progress decay atoms stated r (i + 1) s' (log ++ new) := by
  refine ⟨hs', hentries, horderly, fun e he => ?_,
    fun {q k rule' a' c'} hq hbefore hplace' hrule' hestablished => ?_⟩
  · rcases List.mem_append.1 he with he | he
    · obtain ⟨hpos, hbefore⟩ := h.past e he
      unfold Before at hbefore ⊢
      omega
    · obtain ⟨hplace, hdepth⟩ := hnew e he
      unfold Before
      omega
  · have hold : Given atoms a' ∨ ∃ e ∈ log, e.2.type = a'.type ∧ e.2.name = a'.name ∧
        Before e.2.depth e.1 q k := by
      refine hestablished.imp_right ?_
      rintro ⟨e, he, htype, hname, hearly⟩
      rcases List.mem_append.1 he with he | he
      · exact ⟨e, he, htype, hname, hearly⟩
      · obtain ⟨hplace, hdepth⟩ := hnew e he
        unfold Before at hbefore hearly
        omega
    by_cases hnow : q = r ∧ k = i
    · obtain ⟨rfl, rfl⟩ := hnow
      rw [hplace, Option.some.injEq] at hplace'
      subst hplace'
      obtain ⟨rfl, rfl⟩ := hrule.unique hrule'
      refine hconcluded (hold.imp_right ?_)
      rintro ⟨e, he, htype, hname, -⟩
      exact ⟨e.2, h.entries ▸ List.mem_map_of_mem he, htype, hname⟩
    · refine (h.tried hq ?_ hplace' hrule' hold).mono hext
      unfold Before at hbefore ⊢
      omega

theorem applyRule_spec (hcover : stated.Cover (Stated atoms))
    (hdecay : config.deductiveDecay.operand = .ok decay) (hatoms : ∀ a ∈ atoms, a.IsKnowledge)
    (hr : 1 ≤ r) (hplace : (atoms.filter Atom.isRule)[i]? = some rule) :
    ∃ s' log', applyRule config r s rule = .ok s' ∧
      Progress decay atoms stated r (i + 1) s' log' := by
  obtain ⟨a, c, hrule⟩ := (rules_spec hatoms rule).1 (List.mem_of_getElem? hplace)
  obtain ⟨s', happly, hs', happlied⟩ :=
    h.state.applyRule_applied hcover hdecay hrule (hatoms _ hrule.mem) r
  have hadvance := h.advance hplace hrule hr hs' happlied.extends happlied.concluded
  cases happlied with
  | rests =>
    refine ⟨s, log, happly, ?_⟩
    have hnil : log ++ [] = log := List.append_nil log
    exact hnil ▸ hadvance [] nofun (hnil.symm ▸ h.entries) (hnil.symm ▸ h.orderly)
  | @concludes facts key d u hnew hu htype hname hlabel hpremise hdepth =>
    have hdated := h.dated hr hplace hrule hnew hu
      (.intro hplace hrule htype hname hlabel hpremise) hdepth
    refine ⟨_, log ++ [(i, d)], happly, hadvance _ ?_ ?_ (h.orderly.snoc hdated)⟩
    · rintro e he
      cases List.mem_singleton.1 he
      exact ⟨rfl, hdepth⟩
    · rw [List.map_append, h.entries]
      exact (Table.values_append s.derived [(key, d)]).symm

end Progress

theorem applyRules_progress (hcover : stated.Cover (Stated atoms))
    (hdecay : config.deductiveDecay.operand = .ok decay) (hatoms : ∀ a ∈ atoms, a.IsKnowledge)
    (hr : 1 ≤ r) {rules : List Atom} :
    ∀ {before : List Atom} {s : State} {log : List Entry},
      atoms.filter Atom.isRule = before ++ rules →
      Progress decay atoms stated r before.length s log →
      ∃ s' log', applyRules config r s rules = .ok s' ∧
        Progress decay atoms stated (r + 1) 0 s' log' := by
  induction rules with
  | nil =>
    intro before s log hsplit h
    refine ⟨s, log, rfl, h.nextRound (Nat.le_of_eq ?_)⟩
    rw [hsplit, List.append_nil]
  | cons rule rest ih =>
    intro before s log hsplit h
    have hplace : (atoms.filter Atom.isRule)[before.length]? = some rule := by
      rw [hsplit, List.getElem?_append_right (Nat.le_refl _), Nat.sub_self]
      rfl
    obtain ⟨t, log₁, happly, ht⟩ := h.applyRule_spec hcover hdecay hatoms hr hplace
    have hlength : (before ++ [rule]).length = before.length + 1 := List.length_append
    have hsplit' : atoms.filter Atom.isRule = (before ++ [rule]) ++ rest := by
      rw [hsplit, List.append_assoc]
      rfl
    obtain ⟨s', log', hrest, hs'⟩ := ih hsplit' (hlength ▸ ht)
    refine ⟨s', log', ?_, hs'⟩
    unfold applyRules at hrest ⊢
    rw [List.foldlM_cons, happly]
    exact hrest

theorem rounds_progress (hcover : stated.Cover (Stated atoms))
    (hdecay : config.deductiveDecay.operand = .ok decay) (hatoms : ∀ a ∈ atoms, a.IsKnowledge) :
    ∀ (left : Nat) {r : Nat} {s : State} {log : List Entry},
      Progress decay atoms stated (r + 1) 0 s log →
      ∃ r' s' log', rounds config (atoms.filter Atom.isRule) left (r + 1) s = .ok s' ∧
        r' ≤ r + left ∧ Progress decay atoms stated (r' + 1) 0 s' log' := by
  intro left
  induction left with
  | zero => exact fun {r s log} h => ⟨r, s, log, rfl, Nat.le_refl r, h⟩
  | succ left ih =>
    intro r s log h
    obtain ⟨t, log₁, happly, ht⟩ := applyRules_progress hcover hdecay hatoms
      (Nat.le_add_left 1 r) (List.nil_append _).symm h
    rw [rounds, happly, Except.ok_bind]
    split
    · exact ⟨r + 1, t, log₁, rfl, by omega, ht⟩
    · obtain ⟨r', s', log', hrounds, hr', hs'⟩ := ih ht
      exact ⟨r', s', log', hrounds, by omega, hs'⟩

/-! ## Two rules in one round -/

def concept (name : String) : Atom := .make .conceptNode (.text name) none [] []

/-- The rule that one concept makes another. -/
def makes (antecedent consequent : String) : Atom :=
  .make .implicationLink .null none [] [concept antecedent, concept consequent]

/-- It rains, rain makes wet, and wet makes slippery. -/
def rainy : List Atom :=
  [.make .conceptNode (.text "rain") (some ⟨0.5, 1⟩) [] [], makes "rain" "wet",
    makes "wet" "slippery"]

theorem isKnowledge_concept (name : String) : (concept name).IsKnowledge :=
  .intro ⟨⟨_, rfl⟩, .inr ⟨name, rfl⟩, .empty⟩ (fun _ h => nomatch h) fun _ h => nomatch h

theorem isKnowledge_rule (ha : a.IsKnowledge) (hc : c.IsKnowledge) :
    (Atom.make .implicationLink .null none [] [a, c]).IsKnowledge := by
  refine .intro ⟨⟨_, rfl⟩, .inl rfl, .empty⟩ (fun m hm => ?_) fun b hb => ?_
  · obtain ⟨b, -, rfl⟩ := List.mem_map.1 hm
    exact ⟨b, rfl⟩
  · obtain ⟨b', hb', heq⟩ := List.mem_map.1 hb
    cases heq
    rcases List.mem_cons.1 hb' with rfl | hb'
    · exact ha
    · exact List.mem_singleton.1 hb' ▸ hc

theorem isKnowledge_makes (antecedent consequent : String) :
    (makes antecedent consequent).IsKnowledge :=
  isKnowledge_rule (isKnowledge_concept antecedent) (isKnowledge_concept consequent)

theorem isKnowledge_rainy : ∀ a ∈ rainy, a.IsKnowledge := by
  unfold rainy
  rw [List.forall_mem_cons, List.forall_mem_cons, List.forall_mem_singleton]
  exact ⟨.intro ⟨⟨_, rfl⟩, .inr ⟨_, rfl⟩, .known trivial⟩ (fun _ h => nomatch h)
    (fun _ h => nomatch h), isKnowledge_makes _ _, isKnowledge_makes _ _⟩

theorem Reached.of_one {type name : Value} (h : Reached atoms 1 type name) :
    ∃ rule a c, RuleOf atoms rule a c ∧ Given atoms a ∧ c.type = type ∧ c.name = name := by
  cases h with
  | first hrule ha => exact ⟨_, _, _, hrule, ha, rfl, rfl⟩
  | next _ h => cases h

theorem not_given_wet : ¬ Given rainy (concept "wet") := by
  obtain ⟨stated, hstated, hcover⟩ := knownFacts_cover isKnowledge_rainy
  cases hstated.symm.trans
    (show knownFacts rainy = .ok [((.text "ConceptNode", .text "rain"), .known ⟨0.5, 1⟩)] from rfl)
  rintro ⟨t, ht | ht⟩
  · cases ht
  · have hsharp : Key.Sharp ((.text "ConceptNode", .text "wet") : FactKey) :=
      (Key.sharp_text _).pair (Key.sharp_text _)
    exact hcover.complete hsharp ht rfl

/-- No single rule leads from the knowledge to slippery. -/
theorem not_reached_slippery :
    ¬ Reached rainy 1 (.text "ConceptNode") (.text "slippery") := by
  intro h
  obtain ⟨rule, a, c, ⟨hmem, htype, rest, hparts⟩, ha, -, hname⟩ := h.of_one
  unfold rainy at hmem
  simp only [List.mem_cons, List.not_mem_nil, or_false] at hmem
  obtain rfl | rfl | rfl := hmem
  · exact absurd (Scalar.text.inj (Value.scalar.inj htype)) (by decide)
  · cases hparts
    exact absurd (Scalar.text.inj (Value.scalar.inj hname)) (by decide)
  · cases hparts
    exact not_given_wet ha

/-! ## Whole deductions -/

variable {ceiling : Float} {limit : Int}

/-- An answer has the greatest depth of its conclusions, if it has any. -/
theorem get?_inferenceDepth {deduction : Deduction} {answer : Answer}
    (h : deduction.answer config = .ok answer) :
    Entries.get? answer.metadata "inferenceDepth" =
      (deduction.derivations.map Derivation.depth).max?.map Value.count := by
  unfold Deduction.answer at h
  cases hds : deduction.derivations with
  | nil =>
    rw [hds] at h
    cases h
    rfl
  | cons d rest =>
    rw [hds, if_neg (by simp)] at h
    obtain ⟨confidence, -, h⟩ := Except.bind_eq_ok.1 h
    obtain ⟨names, -, h⟩ := Except.bind_eq_ok.1 h
    cases h
    have hmax : ((d :: rest).map Derivation.depth).max? =
        some (((d :: rest).map Derivation.depth).foldl max 0) := by
      rw [List.map_cons, List.max?_cons', List.foldl_cons, Nat.zero_max]
    rw [hmax]
    rfl

/-- **Depths.** From knowledge with any names and under any limit, a chain of rules leads to each
conclusion. The depth of a conclusion is the number of rounds that the rules of its chain take: the
first one takes one, and each other one another round unless it stands after the rule before it in the
chain. So it is at most their number, it is within the limit, and the answer has the greatest of
them. -/
theorem deduction_depths (hatoms : ∀ a ∈ atoms, a.IsKnowledge)
    (hdecay : config.deductiveDecay.operand = .ok decay)
    (hceiling : config.deductiveCeiling.operand = .ok ceiling)
    (hlimit : config.maxDepth.whole = .ok limit) :
    ∃ log answer, (do (← ofAtoms config atoms).answer config) = .ok answer ∧
      answer.conclusion = log.map (fun e => e.2.toAtom) ∧
      (∀ e ∈ log, (∃ places, Chain atoms log (e.1 :: places) e.2) ∧ (e.2.depth : Int) ≤ limit) ∧
      (∀ places d, Chain atoms log places d →
        d.depth = roundsOf places ∧ d.depth ≤ places.length) ∧
      Entries.get? answer.metadata "inferenceDepth" =
        (log.map fun e => e.2.depth).max?.map Value.count := by
  obtain ⟨stated, hstated, hcover⟩ := knownFacts_cover hatoms
  obtain ⟨r, s, log, hrounds, hr, h⟩ := rounds_progress hcover hdecay hatoms limit.toNat
    (Progress.start decay atoms stated)
  obtain ⟨answer, hanswer, hconclusion⟩ := answer_spec hceiling
    (d := ⟨(atoms.filter Atom.isRule).length, s.derived.values⟩) (h.state.names hatoms)
  have hdistinct : log.Pairwise fun x y => x.2.type = y.2.type → x.2.name ≠ y.2.name := by
    have hvalues := h.state.distinct
    rw [← h.entries, List.pairwise_map] at hvalues
    exact hvalues
  have hdepth := get?_inferenceDepth hanswer
  rw [← h.entries, List.map_map] at hconclusion hdepth
  refine ⟨log, answer, ?_, hconclusion, fun e he => ⟨h.orderly.exists_chain he, ?_⟩,
    fun places d hchain => ?_, hdepth⟩
  · rw [ofAtoms_eq hstated hlimit hrounds]
    exact hanswer
  · obtain ⟨hpos, hbefore⟩ := h.past e he
    unfold Before at hbefore
    omega
  · have heq := h.orderly.depth_eq hdistinct hchain
    exact ⟨heq, heq ▸ roundsOf_le_length places⟩

/-- Depths count rounds when it rains, too. -/
theorem deduction_depths_rainy :
    ∃ log answer, (do (← ofAtoms {} rainy).answer {}) = .ok answer ∧
      answer.conclusion = log.map (fun e => e.2.toAtom) ∧
      ∀ places d, Chain rainy log places d → d.depth = roundsOf places := by
  obtain ⟨log, answer, hanswer, hconclusion, -, hchain, -⟩ :=
    deduction_depths isKnowledge_rainy
      (show ({} : ReasoningConfig).deductiveDecay.operand = .ok 0.95 from rfl)
      (show ({} : ReasoningConfig).deductiveCeiling.operand = .ok 0.95 from rfl)
      (show ({} : ReasoningConfig).maxDepth.whole = .ok 3 from rfl)
  exact ⟨log, answer, hanswer, hconclusion, fun places d h => (hchain places d h).1⟩

/-- Slippery is concluded from wet, which the knowledge does not establish, and both in the one round
that there is: no single rule leads to slippery. -/
theorem deduction_depths_of_order :
    let config : ReasoningConfig := { maxDepth := .int 1 }
    ∃ (wet slippery : Derivation) (answer : Answer),
      (do (← ofAtoms config rainy).answer config) = .ok answer ∧
      answer.conclusion = [wet.toAtom, slippery.toAtom] ∧
      slippery.premise = wet.name ∧ ¬ Given rainy (concept "wet") ∧
      wet.depth = 1 ∧ slippery.depth = 1 ∧
      Reached rainy 2 slippery.type slippery.name ∧ ¬ Reached rainy 1 slippery.type slippery.name ∧
      Entries.get? answer.metadata "inferenceDepth" = some (.count 1) := by
  intro config
  let wet : Derivation := {
    type := .text "ConceptNode"
    name := .text "wet"
    truth := .of (1 * 0.5) (least 0.5 1 * 0.95)
    rule := .text "implication"
    premise := .text "rain"
    depth := 1 }
  let slippery : Derivation := {
    type := .text "ConceptNode"
    name := .text "slippery"
    truth := .of (1 * wet.truth.strength) (least 0.5 wet.truth.confidence * 0.95)
    rule := .text "implication"
    premise := .text "wet"
    depth := 1 }
  have hofAtoms : ofAtoms config rainy = .ok ⟨2, [wet, slippery]⟩ := rfl
  have hceiling : config.deductiveCeiling.operand = .ok 0.95 := rfl
  have hnames : ∀ d ∈ [wet, slippery], d.name.IsTextOrNull :=
    List.forall_mem_cons.2 ⟨.inr ⟨_, rfl⟩, List.forall_mem_singleton.2 (.inr ⟨_, rfl⟩)⟩
  obtain ⟨answer, hanswer, hconclusion⟩ := answer_spec hceiling (d := ⟨2, [wet, slippery]⟩) hnames
  have hrain : Given rainy (concept "rain") := by
    have hnoRule : (rainy.head (by decide)).isRule = false := by decide +kernel
    exact ⟨⟨0.5, 1⟩, .inr ⟨_, .top List.mem_cons_self, rfl, hnoRule, rfl, rfl, rfl⟩⟩
  have hfirst : RuleOf rainy (makes "rain" "wet") (concept "rain") (concept "wet") :=
    ⟨List.mem_cons_of_mem _ List.mem_cons_self, rfl, [], rfl⟩
  have hsecond : RuleOf rainy (makes "wet" "slippery") (concept "wet") (concept "slippery") :=
    ⟨List.mem_cons_of_mem _ (List.mem_cons_of_mem _ List.mem_cons_self), rfl, [], rfl⟩
  refine ⟨wet, slippery, answer, ?_, hconclusion, rfl, not_given_wet, rfl, rfl,
    .next hsecond (.first hfirst hrain), not_reached_slippery, get?_inferenceDepth hanswer⟩
  rw [hofAtoms]
  exact hanswer

end KnowledgeGraph.Deduction
