import KnowledgeGraph.Reasoning.Induction
import KnowledgeGraph.Proofs.Number.Sum
import KnowledgeGraph.Proofs.Pattern.Cluster
import KnowledgeGraph.Proofs.Value.Writable

/-!
# Induction generalizes over each type once

The atoms that are no links are put together by their types. The answer has one generalization for
each type that two of them or more have, in the order in which the types occur first, and it tells the
names of these atoms, their number, their share by which it is certain and their mean strength
(`induction_exact`). Which types there are and how many atoms of each does not depend on the order of
the atoms (`perm_map_summary`), so the summaries of all generalizations do not either.
-/

namespace KnowledgeGraph

namespace Induction

/-! ## What is generalized -/

def leaves (atoms : List Atom) : List Atom := atoms.filter fun a => !a.isLink

def instances (atoms : List Atom) (type : Value) : List Atom := ofType (leaves atoms) type

/-- The types of two leaves or more, in the order of their first ones. -/
def generalized (atoms : List Atom) : List Value :=
  ((leaves atoms).map (·.type)).eraseDups.filter fun type => 2 ≤ (instances atoms type).length

/-- The strengths of the truth values that atoms have. -/
def strengths (members : List Atom) : List Float :=
  (Slot.knowns (members.map (·.truth))).map (·.strength)

/-- The mean of these strengths, and one half if there are none. -/
def meanStrength (members : List Atom) : Float :=
  if (strengths members).isEmpty then 0.5 else mean (strengths members)

/-- How certain the generalization about a number of atoms is. -/
def certainty (ceiling : Float) (prior count : ℕ) : Float :=
  least ceiling (quotient count (count + prior))

/-- How far members support a generalization: its confidence is their share in what is counted, up to
the ceiling, and its strength is the mean strength of those with a truth value, one half without any. -/
structure IsSupport (ceiling : Float) (prior : ℕ) (members : List Atom) (t : TruthValue) : Prop where
  confidence : ∃ share, IsShare share members.length (members.length + prior) ∧
    (t.confidence == least ceiling share) = true
  half : strengths members = [] → (t.strength == 0.5) = true
  average : strengths members ≠ [] → (strengths members).length < 2 ^ 53 →
    (t.strength == mean (strengths members)) = true ∧
    |value t.strength - ((strengths members).map value).sum / (strengths members).length| ≤
      ((strengths members).length + 1) / 2 ^ 53

/-- The link that generalizes over the members of a type: it goes out to the type and tells the names
and the number of the members. -/
structure IsGeneralization (ceiling : Float) (prior : ℕ) (members : List Atom) (type : Value)
    (a : Atom) : Prop where
  kind : a.type = .text AtomType.inheritanceLink.label
  name : ∃ s, type = .text s ∧ a.name = .text (s ++ "-generalization")
  outgoing : a.outgoing = [.known (.make .conceptNode type none [] [])]
  names : Entries.get? a.metadata "members" = some (.list (members.map (·.name)))
  supportCount : Entries.get? a.metadata "supportCount" = some (.count members.length)
  truth : ∃ t, a.truth = .known t ∧ IsSupport ceiling prior members t

/-- What a generalization comes to: the names it goes out to, how many atoms support it, and how
certain it is. -/
def summary (a : Atom) : List Value × Option Value × List Float :=
  ((Slot.knowns a.outgoing).map (·.name), Entries.get? a.metadata "supportCount",
    (Slot.knowns [a.truth]).map (·.confidence))

/-! ## Support -/

section

variable {ceiling : Float} {prior : ℕ} {members : List Atom}

theorem isSupport (hceiling : InUnit ceiling) (htwo : 2 ≤ members.length)
    (htruths : ∀ a ∈ members, a.truth.Fits fun t => InUnit t.strength) :
    IsSupport ceiling prior members
      (.of (meanStrength members) (certainty ceiling prior members.length)) := by
  have hshare : IsShare (quotient members.length (members.length + prior)) members.length
      (members.length + prior) := isShare_quotient (Nat.le_add_right _ _) (by omega)
  have hstrengths : ∀ x ∈ strengths members, InUnit x := by
    refine List.forall_mem_map.2 fun t ht => ?_
    obtain ⟨a, ha, htruth⟩ := List.mem_map.1 (Slot.mem_knowns.1 ht)
    have hfits := htruths a ha
    rw [htruth] at hfits
    cases hfits with
    | known h => exact h
  refine ⟨⟨_, hshare, (inUnit_least hceiling hshare.inUnit).clampUnit_beq⟩, fun hnone => ?_,
    fun hne hlt => ?_⟩
  · show (clampUnit (meanStrength members) == 0.5) = true
    unfold meanStrength
    rw [hnone]
    exact inUnit_half.clampUnit_beq
  · have hmean := inUnit_mean hstrengths hne hlt
    have hstrength : meanStrength members = mean (strengths members) :=
      if_neg (by rwa [List.isEmpty_iff])
    rw [hstrength]
    refine ⟨hmean.clampUnit_beq, ?_⟩
    show |value (clampUnit (mean (strengths members))) - _| ≤ _
    rw [hmean.value_clampUnit]
    exact mean_near hstrengths hne hlt

end

/-! ## Groups -/

theorem group_eq (atoms : List Atom) (groups : Table Scalar (List Atom)) :
    group atoms groups = groupByType (leaves atoms) groups := by
  induction atoms generalizing groups with
  | nil => rfl
  | cons a atoms ih =>
    unfold leaves at ih ⊢
    unfold group
    simp only [ih]
    cases hlink : a.isLink with
    | true => rw [List.filter_cons_of_neg (by simp [hlink])]; rfl
    | false => rw [List.filter_cons_of_pos (by simp [hlink])]; rfl

theorem truths_eq {members : List Atom} {P : TruthValue → Prop}
    (htruths : ∀ a ∈ members, a.truth.Fits P) :
    truths members = .ok (Slot.knowns (members.map (·.truth))) := by
  let known? (a : Atom) : Option TruthValue := match a.truth with
    | .known t => some t
    | .raw _ => none
  have hget : ∀ a ∈ members, a.truth.get? = .ok (known? a) := by
    intro a ha
    have hfits := htruths a ha
    dsimp only [known?]
    generalize a.truth = slot at hfits
    cases hfits with
    | empty => rfl
    | known _ => rfl
  unfold truths Slot.knowns
  rw [Except.mapM_of_forall hget, Except.ok_bind, List.filterMap_map, List.filterMap_map]
  refine congrArg Except.ok (List.filterMap_congr fun a _ => ?_)
  dsimp only [known?, Function.comp, id]
  cases a.truth <;> rfl

/-! ## Generalizations -/

/-- The link that states a generalization whose type has a text. -/
def Generalization.link (g : Generalization) : Atom :=
  .make .inheritanceLink (.text ((Value.scalar g.type).display ++ "-generalization"))
    (some g.truth) (Entries.ofFields [("derivedBy", .text ReasoningType.induction.label),
      ("members", .list (g.members.map (·.name))), ("supportCount", .count g.count)])
    [.make .conceptNode (.scalar g.type) none [] []]

theorem Generalization.toAtom_eq {g : Generalization} (hg : g.type.isWritable = true) :
    g.toAtom = .ok g.link := by
  unfold toAtom
  rw [Value.toText_of_isWritable ((Value.isWritable_scalar _).trans hg)]
  rfl

/-- The generalization about the type of an atom. -/
def generalizationOf (ceiling : Float) (prior : ℕ) (atoms : List Atom) (a : Atom) : Generalization :=
  let members := instances atoms a.type
  ⟨a.typeKey, members, .of (meanStrength members) (certainty ceiling prior members.length)⟩

/-- The first leaves of the types that are generalized. -/
def representatives (atoms : List Atom) : List Atom :=
  (firsts Atom.type (leaves atoms)).filter fun a => 2 ≤ (instances atoms a.type).length

theorem map_representatives (atoms : List Atom) :
    (representatives atoms).map Atom.type = generalized atoms := by
  unfold representatives generalized
  rw [← map_firsts, List.filter_map]
  rfl

section

variable {config : ReasoningConfig} {ceiling : Float} {prior : ℕ} {atoms : List Atom}
  (hceiling : config.inductiveCeiling = .float ceiling) (hprior : config.inductivePrior = .int prior)

include hprior in
theorem support_eq {n : ℕ} (hn : 0 < n) : support config n = .ok (quotient n (n + prior)) := by
  have htotal : (n : ℤ) + prior ≠ 0 := by omega
  have hquotient : quotientInt n (n + prior) = quotient n (n + prior) := by
    have hmagnitude : ((n : ℤ) + prior).natAbs = n + prior := by omega
    have hcount : ¬ (n : ℤ) < 0 := by omega
    have hpositive : ¬ (n : ℤ) + prior < 0 := by omega
    unfold quotientInt
    simp only [Int.natAbs_natCast, hmagnitude, hcount, hpositive, bne_self_eq_false,
      Bool.false_eq_true, if_false]
  have hsum : (Value.int prior).quantity = .ok (.int prior) := rfl
  unfold support
  simp only [hprior, hsum, Except.ok_bind, Quantity.plus, Quantity.share]
  rw [if_neg htotal, hquotient]

include hceiling hprior in
theorem generalize_eq {members : List Atom} (htwo : 2 ≤ members.length)
    (htruths : ∀ a ∈ members, a.truth.Fits fun t => InUnit t.strength) (type : Scalar) :
    generalize config type members = .ok ⟨type, members,
      .of (meanStrength members) (certainty ceiling prior members.length)⟩ := by
  unfold generalize
  rw [truths_eq htruths, Except.ok_bind, support_eq hprior (by omega), hceiling]
  unfold Value.capped
  rw [Except.ok_bind, Value.cap_float]
  rfl

variable (htypes : ∀ a ∈ atoms, ∃ s, a.type = .text s)
  (htruths : ∀ a ∈ atoms, a.truth.Fits fun t => InUnit t.strength)

include hceiling hprior htypes htruths in
theorem ofAtoms_eq : ofAtoms config atoms =
    .ok ((representatives atoms).map (generalizationOf ceiling prior atoms)) := by
  have hleaves : ∀ a ∈ leaves atoms, ∃ s, a.type = .text s := fun a ha =>
    htypes a (List.mem_filter.1 ha).1
  unfold ofAtoms
  rw [group_eq, groupByType_eq hleaves, Except.ok_bind, Table.foldl_addTo (tells_typeKey hleaves),
    List.filter_map, List.mapM_map]
  refine Except.mapM_of_forall fun a ha => generalize_eq hceiling hprior ?_ ?_ _
  · exact of_decide_eq_true (List.mem_filter.1 ha).2
  · intro b hb
    exact htruths b (List.mem_filter.1 (List.mem_filter.1 hb).1).1

include htypes in
theorem exists_text_of_mem_representatives {a : Atom} (ha : a ∈ representatives atoms) :
    ∃ s, a.type = .text s ∧ a.typeKey = .text s := by
  have hleaf := mem_of_mem_firsts (List.mem_filter.1 ha).1
  obtain ⟨s, hs⟩ := htypes a (List.mem_filter.1 hleaf).1
  refine ⟨s, hs, ?_⟩
  unfold Atom.typeKey
  rw [hs]

include htypes htruths in
theorem isGeneralization_of_mem (hunit : InUnit ceiling) {a : Atom} (ha : a ∈ representatives atoms) :
    IsGeneralization ceiling prior (instances atoms a.type) a.type
      (generalizationOf ceiling prior atoms a).link := by
  obtain ⟨s, htype, hkey⟩ := exists_text_of_mem_representatives htypes ha
  have hsupport : IsSupport ceiling prior (instances atoms a.type)
      (.of (meanStrength (instances atoms a.type))
        (certainty ceiling prior (instances atoms a.type).length)) := by
    refine isSupport hunit (of_decide_eq_true (List.mem_filter.1 ha).2) fun b hb => ?_
    exact htruths b (List.mem_filter.1 (List.mem_filter.1 hb).1).1
  unfold generalizationOf
  rw [hkey]
  exact
    { kind := rfl
      name := ⟨s, htype, rfl⟩
      outgoing := by rw [htype]; rfl
      names := rfl
      supportCount := rfl
      truth := ⟨_, rfl, hsupport⟩ }

include htypes in
/-- The summaries tell the types and how many leaves of each there are, and depend on nothing else. -/
theorem map_summary_eq :
    (((representatives atoms).map (generalizationOf ceiling prior atoms)).map
        Generalization.link).map summary = (generalized atoms).map fun type =>
        let count := (instances atoms type).length
        ([type], some (.count count), [clampUnit (certainty ceiling prior count)]) := by
  rw [← map_representatives, List.map_map, List.map_map, List.map_map]
  refine List.map_congr_left fun a ha => ?_
  obtain ⟨s, htype, hkey⟩ := exists_text_of_mem_representatives htypes ha
  dsimp only [Function.comp, generalizationOf]
  rw [hkey, htype]
  rfl

end

/-! ## Other orders of the atoms -/

section

variable {atoms atoms' : List Atom} (hperm : atoms.Perm atoms')
include hperm

theorem perm_leaves : (leaves atoms).Perm (leaves atoms') := hperm.filter _

theorem length_instances_eq (type : Value) :
    (instances atoms type).length = (instances atoms' type).length :=
  ((perm_leaves hperm).filter _).length_eq

theorem perm_generalized : (generalized atoms).Perm (generalized atoms') := by
  have hnodup (atoms : List Atom) : (generalized atoms).Nodup := (nodup_eraseDups _).filter _
  refine (List.perm_ext_iff_of_nodup (hnodup atoms) (hnodup atoms')).2 fun type => ?_
  have hmem : type ∈ (leaves atoms).map (·.type) ↔ type ∈ (leaves atoms').map (·.type) :=
    ((perm_leaves hperm).map _).mem_iff
  unfold generalized
  rw [List.mem_filter, List.mem_filter, List.mem_eraseDups, List.mem_eraseDups, hmem,
    length_instances_eq hperm]

/-- In another order of the atoms the generalizations have the same summaries. -/
theorem perm_map_summary (ceiling : Float) (prior : ℕ) (htypes : ∀ a ∈ atoms, ∃ s, a.type = .text s) :
    ((((representatives atoms).map (generalizationOf ceiling prior atoms)).map
        Generalization.link).map summary).Perm
      ((((representatives atoms').map (generalizationOf ceiling prior atoms')).map
        Generalization.link).map summary) := by
  have htypes' : ∀ a ∈ atoms', ∃ s, a.type = .text s := fun a ha => htypes a (hperm.mem_iff.2 ha)
  rw [map_summary_eq htypes, map_summary_eq htypes']
  simp only [length_instances_eq hperm]
  exact (perm_generalized hperm).map _

end

/-! ## The answer -/

/-- Generalizations about types that have a text have an answer, which states them. -/
theorem exists_answer {config : ReasoningConfig} {ceiling : Float}
    (hceiling : config.inductiveCeiling = .float ceiling) {gs : List Generalization}
    (hgs : ∀ g ∈ gs, g.type.isWritable = true) :
    ∃ r, answer config gs = .ok r ∧ r.conclusion = gs.map Generalization.link := by
  have hlinks : gs.mapM Generalization.toAtom = .ok (gs.map Generalization.link) :=
    Except.mapM_of_forall fun g hg => Generalization.toAtom_eq (hgs g hg)
  cases gs with
  | nil => exact ⟨_, rfl, rfl⟩
  | cons g gs =>
    have hoperand : config.inductiveCeiling.operand = .ok ceiling := by
      rw [hceiling]
      rfl
    obtain ⟨z, hz⟩ := Value.capped_eq_ok hoperand (mean ((g :: gs).map (·.truth.confidence)))
    unfold answer
    rw [hlinks, hz]
    exact ⟨_, rfl, rfl⟩

theorem exists_answer_representatives {config : ReasoningConfig} {ceiling : Float}
    (hceiling : config.inductiveCeiling = .float ceiling) (prior : ℕ) {atoms : List Atom}
    (htypes : ∀ a ∈ atoms, ∃ s, a.type = .text s) :
    ∃ r, answer config ((representatives atoms).map (generalizationOf ceiling prior atoms)) = .ok r ∧
      r.conclusion =
        ((representatives atoms).map (generalizationOf ceiling prior atoms)).map
          Generalization.link := by
  refine exists_answer hceiling (List.forall_mem_map.2 fun a ha => ?_)
  obtain ⟨s, -, hkey⟩ := exists_text_of_mem_representatives htypes ha
  unfold generalizationOf
  rw [hkey]
  rfl

/-- **Generalizations.** Induction comes out well on all atoms. The answer has one generalization for
each type that two atoms without others going out from them have or more, in the order in which the
types occur first, and no other one; in another order of the atoms their summaries are the same. -/
theorem induction_exact {config : ReasoningConfig} {ceiling : Float} {prior : ℕ} {atoms : List Atom}
    (hceiling : config.inductiveCeiling = .float ceiling) (hunit : InUnit ceiling)
    (hprior : config.inductivePrior = .int prior) (htypes : ∀ a ∈ atoms, ∃ s, a.type = .text s)
    (htruths : ∀ a ∈ atoms, a.truth.Fits fun t => InUnit t.strength) :
    ∃ r, (do answer config (← ofAtoms config atoms)) = .ok r ∧
      List.Forall₂ (fun type a => IsGeneralization ceiling prior (instances atoms type) type a)
        (generalized atoms) r.conclusion ∧
      ∀ atoms', atoms.Perm atoms' → ∃ r', (do answer config (← ofAtoms config atoms')) = .ok r' ∧
        (r.conclusion.map summary).Perm (r'.conclusion.map summary) := by
  obtain ⟨r, hr, hconclusion⟩ := exists_answer_representatives hceiling prior htypes
  refine ⟨r, ?_, ?_, fun atoms' hperm => ?_⟩
  · rw [ofAtoms_eq hceiling hprior htypes htruths]
    exact hr
  · rw [hconclusion, ← map_representatives, List.map_map, List.forall₂_map_left_iff,
      List.forall₂_map_right_iff]
    exact List.forall₂_same.2 fun a ha => isGeneralization_of_mem htypes htruths hunit ha
  · have htypes' : ∀ a ∈ atoms', ∃ s, a.type = .text s := fun a ha => htypes a (hperm.mem_iff.2 ha)
    obtain ⟨r', hr', hconclusion'⟩ := exists_answer_representatives hceiling prior htypes'
    refine ⟨r', ?_, ?_⟩
    · rw [ofAtoms_eq hceiling hprior htypes'
        fun a ha => htruths a (hperm.mem_iff.2 ha)]
      exact hr'
    · rw [hconclusion, hconclusion']
      exact perm_map_summary hperm ceiling prior htypes

/-- Two concepts with a predicate and a link between them support one generalization, that has the
strength of the one concept with a truth value. -/
theorem induction_exact_concepts :
    let concept (name : String) (truth : Option TruthValue) : Atom :=
      .make .conceptNode (.text name) truth [] []
    let atoms := [concept "rain" (some ⟨0.5, 1⟩), .make .predicateNode (.text "falls") none [] [],
      .make .conceptNode (.text "weather") none [] [concept "rain" none], concept "snow" none]
    (∀ a ∈ atoms, ∃ s, a.type = .text s) ∧
    (∀ a ∈ atoms, a.truth.Fits fun t => InUnit t.strength) ∧
    ∃ r a, (do answer {} (← ofAtoms {} atoms)) = .ok r ∧ r.conclusion = [a] ∧
      a.name = .text "ConceptNode-generalization" ∧
      Entries.get? a.metadata "members" = some (.list [.text "rain", .text "snow"]) ∧
      ∃ t, a.truth = .known t ∧ (t.strength == mean [0.5]) = true := by
  intro concept atoms
  have htypes : ∀ a ∈ atoms, ∃ s, a.type = .text s := by
    repeat rw [List.forall_mem_cons]
    exact ⟨⟨_, rfl⟩, ⟨_, rfl⟩, ⟨_, rfl⟩, ⟨_, rfl⟩, List.forall_mem_nil _⟩
  have htruths : ∀ a ∈ atoms, a.truth.Fits fun t => InUnit t.strength := by
    repeat rw [List.forall_mem_cons]
    exact ⟨.known inUnit_half, .empty, .empty, .empty, List.forall_mem_nil _⟩
  refine ⟨htypes, htruths, ?_⟩
  have hceiling : InUnit 0.75 := ⟨by decide +kernel, by decide +kernel⟩
  have hprior : ReasoningConfig.inductivePrior {} = .int (2 : ℕ) := rfl
  obtain ⟨r, hr, hgeneralizations, -⟩ := induction_exact rfl hceiling hprior htypes htruths
  have htypes : generalized atoms = [.text "ConceptNode"] := rfl
  rw [htypes] at hgeneralizations
  obtain ⟨a, _, ha, hnil, hconclusion⟩ := List.forall₂_cons_left_iff.1 hgeneralizations
  cases hnil
  obtain ⟨s, htype, hname⟩ := ha.name
  cases htype
  obtain ⟨t, htruth, hsupport⟩ := ha.truth
  have hstrength := (hsupport.average nofun (by decide)).1
  exact ⟨r, a, hr, hconclusion, hname, ha.names, t, htruth, hstrength⟩

end Induction

end KnowledgeGraph
