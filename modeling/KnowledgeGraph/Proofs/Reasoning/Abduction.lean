import KnowledgeGraph.Reasoning.Abduction
import KnowledgeGraph.Proofs.Best
import KnowledgeGraph.Proofs.Number.Bounds
import KnowledgeGraph.Proofs.Reasoning.Depth
import KnowledgeGraph.Proofs.Store.Attributes

/-!
# Abduction keeps the best explanation

Each rule of the knowledge whose consequent is observed suggests its antecedent (`Suggests`). Of all
that is suggested the answer has one explanation for each type and name, in the order in which they
are suggested first, and it is the first of the most certain ones (`abduction_best`). Every
explanation is taken as a whole from the rule that suggests it, so what it explains and the rule go
with its confidence.
-/

namespace KnowledgeGraph

variable {x y : Float}

/-! ## Comparisons -/

theorem Quantity.atLeast_float : (Quantity.float x).atLeast (.float y) = true ↔ y ≤ x := by
  have hboth : (Quantity.float x).atLeast (.float y) = true ↔
      ¬ x < y ∧ (y < x ∨ (x == y) = true) := by
    unfold Quantity.atLeast Quantity.compare?
    dsimp only
    by_cases hlt : x < y
    · rw [if_pos hlt]
      exact iff_of_false (by decide) fun h => h.1 hlt
    · rw [if_neg hlt]
      by_cases hgt : y < x
      · rw [if_pos hgt]
        exact iff_of_true (by decide) ⟨hlt, .inl hgt⟩
      · rw [if_neg hgt]
        by_cases heq : (x == y) = true
        · rw [if_pos heq]
          exact iff_of_true (by decide) ⟨hlt, .inr heq⟩
        · rw [if_neg heq]
          exact iff_of_false (by decide) fun h => h.2.elim hgt heq
  rw [hboth]
  constructor
  · rintro ⟨-, hgt | heq⟩
    · exact le_of_less hgt
    · obtain ⟨hx, hy⟩ := isNaN_of_le (le_of_beq heq)
      exact (le_iff_rank hy hx).2 (rank_eq_of_beq heq).ge
  · intro h
    obtain ⟨hy, hx⟩ := isNaN_of_le h
    rw [lt_iff_rank hx hy, lt_iff_rank hy hx, beq_iff_rank hx hy, not_lt]
    have hrank := (le_iff_rank hy hx).1 h
    exact ⟨hrank, (lt_or_eq_of_le hrank).imp_right Eq.symm⟩

/-- Moved into the unit interval, a number of it compares as before. -/
theorem Quantity.atLeast_clampUnit (hy : InUnit y) :
    (Quantity.float x).atLeast (.float (clampUnit y)) = (Quantity.float x).atLeast (.float y) := by
  have hclamp : (clampUnit y).isNaN = false := (inUnit_clampUnit y).isNaN
  rw [Bool.eq_iff_iff, atLeast_float, atLeast_float]
  constructor
  · exact le_of_le_le ((le_iff_rank hy.isNaN hclamp).2 hy.rank_clampUnit.ge)
  · exact le_of_le_le ((le_iff_rank hclamp hy.isNaN).2 hy.rank_clampUnit.le)

namespace Abduction

open Deduction (RuleOf RuleTruth)

/-! ## What is observed -/

/-- What a value lists: itself if it is a text, or its items. -/
def listed : Value → List Value
  | .text s => [.text s]
  | .list items => items
  | _ => []

/-- What the context of a question lists as observed. -/
def listedIn (q : Question) : List Value :=
  listed (q.contextField "observation") ++ listed (q.contextField "observations")

/-- An atom is observed if it has the type and the name of a named atom that is no link, or a name
that is the text of what the context lists. -/
inductive Observed (atoms : List Atom) (q : Question) (c : Atom) : Prop
  | atom {b : Atom} (hb : b ∈ atoms) (hlink : b.isLink = false) (hnamed : b.isNamed = true)
    (htype : b.type = c.type) (hname : b.name = c.name)
  | listed {v : Value} (hv : v ∈ listedIn q) (hname : c.name = .text v.display)

/-- How certain an explanation is by a rule of a strength. -/
def certainty (strength : Float) : Float := least 0.5 (strength * 0.5)

/-- What a rule suggests: its antecedent explains the consequent if that is observed. -/
inductive Suggests (atoms : List Atom) (q : Question) (rule : Atom) (h : Hypothesis) : Prop
  | intro {a c : Atom} {t : TruthValue} (hrule : RuleOf atoms rule a c) (hc : Observed atoms q c)
    (ht : RuleTruth rule t) (htype : h.type = a.type) (hname : h.name = a.name)
    (hstrength : h.truth.strength = t.strength)
    (hconfidence : (h.truth.confidence == certainty t.strength) = true)
    (hexplains : h.explains = c.name) (hlabel : h.rule = rule.ruleLabel)

section

variable {atoms : List Atom} {q : Question} {o : Observations} {rule a c : Atom}

theorem namesOf_eq (v : Value) : namesOf v = (listed v).mapM Value.toText := by
  match v with
  | .text s =>
    simp only [listed, List.mapM_cons, Value.toText_text]
    rfl
  | .list items => rfl
  | .map _ | .null | .bool _ | .int _ | .float _ | .scalar (.nan _) => rfl

/-- Both lists of names are put into text, or the limit on digits stops one of them. -/
theorem observe_eq (q : Question) : observe atoms q =
    if (listedIn q).all Value.isWritable then do
      let keys ← (atoms.filter fun a => !a.isLink && a.isNamed).mapM Atom.factKey
      return ⟨keys, (listedIn q).map Value.display⟩
    else .error .tooManyDigits := by
  unfold observe listedIn
  rw [namesOf_eq, namesOf_eq, Value.mapM_toText, Value.mapM_toText, List.all_append, List.map_append]
  cases (listed (q.contextField "observation")).all Value.isWritable with
  | false => rfl
  | true => cases (listed (q.contextField "observations")).all Value.isWritable <;> rfl

/-- Observations are made of all atoms that facts can be known about. -/
theorem observe_spec (hatoms : ∀ a ∈ atoms, a.Keyed)
    (hlisted : ∀ v ∈ listedIn q, v.isWritable) :
    ∃ o, observe atoms q = .ok o ∧
      ∀ c : Atom, c.Keyed → ∃ b, isObserved o c = .ok b ∧ (b = true ↔ Observed atoms q c) := by
  have hkeys : Except.Returns ((atoms.filter fun a => !a.isLink && a.isNamed).mapM Atom.factKey) :=
    Except.returns_mapM fun a ha =>
      ((hatoms a (List.mem_filter.1 ha).1).exists_key).imp fun _ hkey => hkey.1
  obtain ⟨keys, hkeys⟩ := hkeys
  refine ⟨⟨keys, (listedIn q).map Value.display⟩, ?_, fun c hc => ?_⟩
  · rw [observe_eq, if_pos (List.all_eq_true.2 hlisted), hkeys]
    rfl
  obtain ⟨key, hkey, hsharp⟩ := hc.exists_key
  obtain ⟨htype, hname⟩ := Atom.factKey_eq_ok.1 hkey
  refine ⟨_, by unfold isObserved; rw [hkey]; rfl, ?_⟩
  rw [Bool.or_eq_true, List.any_eq_true]
  constructor
  · rintro (⟨key', hmem, hsame⟩ | hlisted)
    · obtain rfl := (hsharp key').1 hsame
      obtain ⟨b, hb, hbkey⟩ := Except.exists_source_of_mapM_eq_ok hkeys hmem
      obtain ⟨hb, hleaf⟩ := List.mem_filter.1 hb
      rw [Bool.and_eq_true, Bool.not_eq_true'] at hleaf
      obtain ⟨hbtype, hbname⟩ := Atom.factKey_eq_ok.1 hbkey
      exact .atom hb hleaf.1 hleaf.2 (hbtype.trans htype.symm) (hbname.trans hname.symm)
    · obtain ⟨n, hn, hcontains⟩ := (Option.any_eq_true _ _).1 hlisted
      obtain ⟨v, hv, rfl⟩ := List.mem_map.1 (List.contains_iff_mem.1 hcontains)
      exact .listed hv (Value.text?_eq_some.1 hn)
  · rintro (@⟨b, hb, hlink, hnamed, hbtype, hbname⟩ | ⟨hv, hn⟩)
    · have hmem : b ∈ atoms.filter fun a => !a.isLink && a.isNamed :=
        List.mem_filter.2 ⟨hb, by rw [hlink, hnamed]; rfl⟩
      have hbkey : b.factKey = .ok key :=
        Atom.factKey_eq_ok.2 ⟨hbtype.trans htype, hbname.trans hname⟩
      obtain ⟨key', hkey', hbkey'⟩ := Except.exists_target_of_mapM_eq_ok hkeys hmem
      cases hbkey.symm.trans hbkey'
      exact .inl ⟨key, hkey', hsharp.same_self⟩
    · refine .inr ((Option.any_eq_true _ _).2 ⟨_, Value.text?_eq_some.2 hn, ?_⟩)
      exact List.contains_iff_mem.2 (List.mem_map_of_mem hv)

end

/-! ## What rules suggest -/

/-- Whether an explanation is more certain than a known one, which is kept otherwise. -/
def moreCertain (h known : Hypothesis) : Bool :=
  !(Quantity.float known.truth.confidence).atLeast (.float h.truth.confidence)

/-- What is suggested, under the key of the antecedent. -/
structure IsEntry (e : FactKey × Hypothesis) : Prop where
  sharp : Key.Sharp e.1
  type : e.2.type = .scalar e.1.1
  name : e.2.name = .scalar e.1.2
  named : e.2.name.IsTextOrNull
  explains : e.2.explains.IsTextOrNull
  inUnit : InUnit e.2.truth.confidence

theorem IsEntry.moreCertain_iff {d e : FactKey × Hypothesis} (hd : IsEntry d) (he : IsEntry e) :
    moreCertain d.2 e.2 = true ↔ rank e.2.truth.confidence < rank d.2.truth.confidence := by
  unfold moreCertain
  rw [Bool.not_eq_true', ← Bool.not_eq_true, Quantity.atLeast_float,
    le_iff_rank hd.inUnit.isNaN he.inUnit.isNaN, not_le]

section

variable {atoms : List Atom} {q : Question} {o : Observations} {rule a c : Atom}

/-- A rule whose consequent is observed puts in what it suggests, unless it is known that well. -/
theorem propose_observed (hrule : RuleOf atoms rule a c) (hkeyed : rule.IsKnowledge)
    (hclamped : ∀ t, rule.truth = .known t → t.IsClamped) (hc : Observed atoms q c)
    (ho : isObserved o c = .ok true) :
    ∃ e, IsEntry e ∧ Suggests atoms q rule e.2 ∧
      ∀ found, propose {} o found rule = .ok (Table.putBetter moreCertain found e) := by
  obtain ⟨t, hruleTruth, ht⟩ := Deduction.ruleTruth_spec hkeyed.here
  obtain ⟨key, hkey, hsharp⟩ := (hrule.antecedent hkeyed).exists_key
  obtain ⟨htype, hname⟩ := Atom.factKey_eq_ok.1 hkey
  have htruth : t.IsClamped := by
    obtain ht | ⟨-, rfl⟩ := ht
    · exact hclamped t ht
    · exact rfl
  have hunit : InUnit (certainty t.strength) :=
    inUnit_least inUnit_half (htruth.inUnit.1.mul inUnit_half)
  let h : Hypothesis := {
    type := a.type
    name := a.name
    truth := .of t.strength (certainty t.strength)
    explains := c.name
    rule := rule.ruleLabel }
  have hstrength : clampUnit t.strength = t.strength := congrArg TruthValue.strength htruth
  refine ⟨(key, h), ⟨hsharp, htype, hname, (hrule.antecedent hkeyed).name,
      (hrule.consequent hkeyed).name, inUnit_clampUnit _⟩,
    ⟨hrule, hc, ht, rfl, rfl, hstrength, ?_, rfl, rfl⟩, fun found => ?_⟩
  · exact hunit.clampUnit_beq
  · have hcap : ({} : ReasoningConfig).abductiveCeiling.cap (t.strength * 0.5) =
        .ok (.float (certainty t.strength)) := Value.cap_float 0.5 _
    have hfactor : ({} : ReasoningConfig).abductiveFactor.operand = .ok 0.5 := rfl
    have hbetter (known : Hypothesis) : moreCertain h known =
        !(Quantity.float known.truth.confidence).atLeast (.float (certainty t.strength)) :=
      congrArg _ (Quantity.atLeast_clampUnit hunit)
    unfold propose Table.putBetter
    simp only [hrule.ruleParts, Except.ok_bind, Slot.get, ho, hruleTruth, hfactor, hcap, hkey,
      hbetter, Bool.not_true, Bool.false_eq_true, if_false]
    cases found.lookup? key with
    | none => rfl
    | some known =>
      dsimp only
      split
      · rename_i hleast
        rw [hleast]
        rfl
      · rename_i hleast
        rw [Bool.not_eq_true] at hleast
        rw [hleast]
        rfl

/-- A rule whose consequent is not observed leaves what is known. -/
theorem propose_unobserved (hrule : RuleOf atoms rule a c) (ho : isObserved o c = .ok false)
    (found : Table FactKey Hypothesis) : propose {} o found rule = .ok found := by
  unfold propose
  simp only [hrule.ruleParts, Except.ok_bind, Slot.get, ho, Bool.not_false, if_true, Except.pure_eq]

end

/-- A rule of the knowledge whose consequent is observed. -/
def Explains (atoms : List Atom) (q : Question) (rule : Atom) : Prop :=
  ∃ a c, RuleOf atoms rule a c ∧ Observed atoms q c

section

variable {atoms : List Atom} {q : Question} {o : Observations}

open scoped Classical in
/-- The rules in a row put in what they suggest, each in its turn. -/
theorem foldlM_propose (hatoms : ∀ a ∈ atoms, a.IsKnowledge)
    (hclamped : ∀ a ∈ atoms, ∀ t, a.truth = .known t → t.IsClamped)
    (ho : ∀ c : Atom, c.Keyed → ∃ b, isObserved o c = .ok b ∧ (b = true ↔ Observed atoms q c)) :
    ∃ es : Table FactKey Hypothesis,
      List.Forall₂ (fun rule e => IsEntry e ∧ Suggests atoms q rule e.2)
        (atoms.filter (Explains atoms q)) es ∧
      (atoms.filter Atom.isRule).foldlM (propose {} o) [] =
        .ok (es.foldl (Table.putBetter moreCertain) []) := by
  have hobserved {rule : Atom} (hrule : rule ∈ atoms.filter (Explains atoms q)) :
      ∃ e, (IsEntry e ∧ Suggests atoms q rule e.2) ∧
        ∀ found, propose {} o found rule = .ok (Table.putBetter moreCertain found e) := by
    obtain ⟨hmem, hexplains⟩ := List.mem_filter.1 hrule
    obtain ⟨a, c, hparts, hc⟩ := of_decide_eq_true hexplains
    obtain ⟨b, hb, hiff⟩ := ho c (hparts.consequent (hatoms rule hmem))
    rw [hiff.2 hc] at hb
    obtain ⟨e, he, hsuggests, hpropose⟩ :=
      propose_observed hparts (hatoms rule hmem) (hclamped rule hmem) hc hb
    exact ⟨e, ⟨he, hsuggests⟩, hpropose⟩
  have hunobserved {rule : Atom} (hrule : rule ∈ atoms.filter Atom.isRule)
      (hnot : decide (Explains atoms q rule) = false) (found : Table FactKey Hypothesis) :
      propose {} o found rule = .ok found := by
    obtain ⟨hmem, hrule⟩ := List.mem_filter.1 hrule
    obtain ⟨a, c, hparts⟩ := (Deduction.isRule_iff (hatoms rule hmem) hmem).1 hrule
    obtain ⟨b, hb, hiff⟩ := ho c (hparts.consequent (hatoms rule hmem))
    cases b with
    | true => exact absurd ⟨a, c, hparts, hiff.1 rfl⟩ (of_decide_eq_false hnot)
    | false => exact propose_unobserved hparts hb found
  have hfilter : (atoms.filter Atom.isRule).filter (Explains atoms q) =
      atoms.filter (Explains atoms q) := by
    rw [List.filter_filter]
    refine List.filter_congr fun rule hmem => ?_
    rw [Bool.and_eq_left_iff_imp, decide_eq_true_iff]
    rintro ⟨a, c, hparts, -⟩
    exact (Deduction.isRule_iff (hatoms rule hmem) hmem).2 ⟨a, c, hparts⟩
  obtain ⟨es, hes, hrun⟩ := Except.exists_foldl fun rule hrule => hobserved hrule
  refine ⟨es, hes, ?_⟩
  rw [← hrun, ← hfilter]
  exact (Except.foldlM_filter (fun rule hrule => hunobserved hrule) []).symm

theorem conclusion_answer {config : ReasoningConfig} {hs : List Hypothesis} {r : Answer}
    (h : answer config hs = .ok r) : r.conclusion = hs.map Hypothesis.toAtom := by
  unfold answer at h
  split at h
  · rename_i hempty
    rw [List.isEmpty_iff.1 hempty]
    cases h
    rfl
  · obtain ⟨_, -, h⟩ := Except.bind_eq_ok.1 h
    obtain ⟨_, -, h⟩ := Except.bind_eq_ok.1 h
    cases h
    rfl

theorem returns_answer {hs : List Hypothesis}
    (hnames : ∀ h ∈ hs, h.name.IsTextOrNull ∧ h.explains.IsTextOrNull) :
    Except.Returns (answer {} hs) := by
  have hwording : Except.Returns (hs.mapM Hypothesis.wording) := by
    refine Except.returns_mapM fun h hh => ?_
    obtain ⟨hname, hexplains⟩ := hnames h hh
    unfold Hypothesis.wording
    rw [Value.toText_of_isWritable hname.isWritable, Value.toText_of_isWritable hexplains.isWritable]
    exact Except.returns_ok _
  obtain ⟨words, hwords⟩ := hwording
  cases hs with
  | nil => exact ⟨_, rfl⟩
  | cons h hs =>
    have hceiling : ({} : ReasoningConfig).abductiveCeiling.operand = .ok 0.5 := rfl
    obtain ⟨z, hz⟩ := Value.capped_eq_ok hceiling (mean ((h :: hs).map (·.truth.confidence)))
    unfold answer
    rw [hz, hwords]
    exact ⟨_, rfl⟩

open scoped Classical in
/-- **Best explanations.** Under the default settings abduction comes out well on all knowledge, unless
the context lists what has too many digits to be a name. The answer has one explanation for each type
and name that the rules with an observed consequent suggest, in the order of the first suggestions, and
it is the first of the most certain ones. -/
theorem abduction_best (hatoms : ∀ a ∈ atoms, a.IsKnowledge)
    (hclamped : ∀ a ∈ atoms, ∀ t, a.truth = .known t → t.IsClamped) (q : Question) :
    ((∀ v ∈ listedIn q, v.isWritable) → ∃ suggested hs r,
      List.Forall₂ (Suggests atoms q) (atoms.filter (Explains atoms q)) suggested ∧
      IsBestOfEach (fun h : Hypothesis => (h.type, h.name)) (·.truth.confidence) suggested hs ∧
      (do answer {} (← ofAtoms {} atoms q)) = .ok r ∧ r.conclusion = hs.map Hypothesis.toAtom) ∧
    ((∃ v ∈ listedIn q, ¬ v.isWritable) →
      (do answer {} (← ofAtoms {} atoms q)) = .error .tooManyDigits) := by
  refine ⟨fun hlisted => ?_, fun hlong => ?_⟩
  case refine_2 =>
    have hall : ¬ (listedIn q).all Value.isWritable = true := by simpa using hlong
    unfold ofAtoms
    rw [observe_eq, if_neg hall]
    rfl
  obtain ⟨o, hobserve, ho⟩ := observe_spec (fun a ha => (hatoms a ha).here) hlisted
  obtain ⟨es, hes, hfold⟩ := foldlM_propose hatoms hclamped ho
  have hentries : ∀ e ∈ es, IsEntry e := by
    intro e he
    obtain ⟨rule, -, hentry, -⟩ := Except.exists_of_forall₂ hes he
    exact hentry
  have hsuggested : List.Forall₂ (Suggests atoms q) (atoms.filter (Explains atoms q)) es.values :=
    List.forall₂_map_right_iff.2 (hes.imp fun _ _ h => h.2)
  let hs := Table.values (es.foldl (Table.putBetter moreCertain) [])
  have hofAtoms : ofAtoms {} atoms q = .ok hs := by
    unfold ofAtoms
    rw [hobserve, Except.ok_bind, hfold]
    rfl
  have hvalues {v : Hypothesis} (hv : v ∈ es.values) : ∃ e, IsEntry e ∧ e.2 = v := by
    obtain ⟨e, he, rfl⟩ := List.mem_map.1 hv
    exact ⟨e, hentries e he, rfl⟩
  have hinjective : Function.Injective fun k : FactKey => (Value.scalar k.1, Value.scalar k.2) := by
    intro k k' h
    rw [Prod.mk.injEq, Value.scalar.injEq, Value.scalar.injEq] at h
    exact Prod.ext h.1 h.2
  have hbest : IsBestOfEach (fun h : Hypothesis => (h.type, h.name)) (·.truth.confidence)
      es.values hs := by
    refine IsBestOfEach.float (Table.isBestOfEach_values (fun k hk => ?_) hinjective
      (fun e he => ?_) fun v hv w hw => ?_) fun v hv => ?_
    · obtain ⟨e, he, rfl⟩ := List.mem_map.1 hk
      exact (hentries e he).sharp
    · exact Prod.ext (hentries e he).type.symm (hentries e he).name.symm
    · obtain ⟨d, hd, rfl⟩ := hvalues hv
      obtain ⟨e, he, rfl⟩ := hvalues hw
      exact hd.moreCertain_iff he
    · obtain ⟨e, he, rfl⟩ := hvalues hv
      exact he.inUnit.isNaN
  have hnames : ∀ h ∈ hs, h.name.IsTextOrNull ∧ h.explains.IsTextOrNull := by
    intro h hh
    obtain ⟨e, he, rfl⟩ := hvalues (List.mem_filter.1 (hbest.best h hh).mem).1
    exact ⟨he.named, he.explains⟩
  obtain ⟨r, hr⟩ := returns_answer hnames
  exact ⟨es.values, hs, r, hsuggested, hbest, by rw [hofAtoms]; exact hr, conclusion_answer hr⟩

end

/-! ## The garden -/

open Deduction (concept makes isKnowledge_concept isKnowledge_makes)

/-- Rain may make wet, a sprinkler does, and rain does make slippery. -/
def garden : List Atom :=
  [.make .implicationLink .null (some ⟨0.5, 1⟩) [] [concept "rain", concept "wet"],
    makes "sprinkler" "wet", makes "rain" "slippery", concept "wet"]

theorem isKnowledge_garden : ∀ a ∈ garden, a.IsKnowledge := by
  have hrule := isKnowledge_makes "rain" "wet"
  unfold garden
  rw [List.forall_mem_cons, List.forall_mem_cons, List.forall_mem_cons, List.forall_mem_singleton]
  exact ⟨.intro ⟨⟨_, rfl⟩, .inl rfl, .known trivial⟩ (fun _ => hrule.slot) fun _ => hrule.atom,
    isKnowledge_makes _ _, isKnowledge_makes _ _, isKnowledge_concept _⟩

/-- Where it is slippery, too, rain is the first explanation, but by the stronger rule. -/
theorem abduction_best_garden :
    let q : Question := ⟨.null, none, [(.text "observation", .text "slippery")], []⟩
    ∃ suggested hs r,
      IsBestOfEach (fun h : Hypothesis => (h.type, h.name)) (·.truth.confidence) suggested hs ∧
      (do answer {} (← ofAtoms {} garden q)) = .ok r ∧ r.conclusion = hs.map Hypothesis.toAtom ∧
      r.conclusion.map (fun a => (a.name, Entries.get? a.metadata "explains")) =
        [(.text "rain", some (.text "slippery")), (.text "sprinkler", some (.text "wet"))] := by
  intro q
  have hclamped : ∀ a ∈ garden, ∀ t, a.truth = .known t → t.IsClamped := by
    unfold garden
    rw [List.forall_mem_cons, List.forall_mem_cons, List.forall_mem_cons,
      List.forall_mem_singleton]
    refine ⟨fun t ht => ?_, fun _ => nofun, fun _ => nofun, fun _ => nofun⟩
    cases ht
    rfl
  have hlisted : ∀ v ∈ listedIn q, v.isWritable := by
    rintro v (_ | ⟨_, ⟨⟩⟩)
    rfl
  obtain ⟨suggested, hs, r, -, hbest, hr, hconclusion⟩ :=
    (abduction_best isKnowledge_garden hclamped q).1 hlisted
  refine ⟨suggested, hs, r, hbest, hr, hconclusion, ?_⟩
  obtain ⟨hs', hofAtoms, hnames⟩ : ∃ hs', ofAtoms {} garden q = .ok hs' ∧
      (hs'.map Hypothesis.toAtom).map (fun a => (a.name, Entries.get? a.metadata "explains")) =
        [(.text "rain", some (.text "slippery")), (.text "sprinkler", some (.text "wet"))] :=
    ⟨_, rfl, rfl⟩
  rw [hofAtoms, Except.ok_bind] at hr
  rw [conclusion_answer hr]
  exact hnames

end Abduction

end KnowledgeGraph
