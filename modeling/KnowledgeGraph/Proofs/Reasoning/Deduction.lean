import KnowledgeGraph.Reasoning.Deduction
import KnowledgeGraph.Proofs.Reasoning.Knowledge
import KnowledgeGraph.Proofs.Value.Writable

/-!
# Deduction is sound and complete

The rules of the knowledge are its implication links with two atoms going out from them
(`RuleOf`). Each conclusion follows from a rule, a premise and the conclusions before it
(`Follows`), no consequent is concluded twice, and whatever a chain of rules reaches (`Reached`) is
concluded if the chain is no longer than the limit; once a round adds nothing the conclusions are
closed under all rules (`deduction_correct`).
-/

namespace KnowledgeGraph.Deduction

open Atom (Keyed IsKnowledge)
open Key (Sharp)

/-! ## What follows -/

/-- A rule of the knowledge, with its antecedent and its consequent. -/
structure RuleOf (atoms : List Atom) (rule antecedent consequent : Atom) : Prop where
  mem : rule ∈ atoms
  type : rule.type = .text AtomType.implicationLink.label
  parts : ∃ rest, rule.outgoing = .known antecedent :: .known consequent :: rest

/-- The truth value of a rule; one without is true, but uncertain. -/
def RuleTruth (rule : Atom) (t : TruthValue) : Prop :=
  rule.truth = .known t ∨ rule.truth = .empty ∧ t = ⟨1, 0.5⟩

/-- The truth value of an antecedent: its own, or else one that the knowledge states, or else that
of an earlier conclusion. -/
inductive Premise (atoms : List Atom) (earlier : List Derivation) (a : Atom) (t : TruthValue) : Prop
  | own (h : a.truth = .known t)
  | stated (hown : a.truth = .empty) (h : Stated atoms a.type a.name t)
  | concluded {d : Derivation} (hown : a.truth = .empty)
    (hstated : ∀ u, ¬ Stated atoms a.type a.name u)
    (hd : d ∈ earlier) (htype : d.type = a.type) (hname : d.name = a.name) (ht : d.truth = t)

/-- The conclusion is that of a rule from a premise. -/
inductive Follows (decay : Float) (atoms : List Atom) (earlier : List Derivation) (d : Derivation) :
    Prop
  | intro {rule antecedent consequent : Atom} {t u : TruthValue}
    (hrule : RuleOf atoms rule antecedent consequent) (ht : RuleTruth rule t)
    (hu : Premise atoms earlier antecedent u) (htype : d.type = consequent.type)
    (hname : d.name = consequent.name)
    (htruth : d.truth =
      .of (t.strength * u.strength) (least t.confidence u.confidence * decay))

/-- There is a conclusion with the type and the name. -/
def Concluded (ds : List Derivation) (type name : Value) : Prop :=
  ∃ d ∈ ds, d.type = type ∧ d.name = name

/-- The knowledge itself establishes an antecedent. -/
def Given (atoms : List Atom) (a : Atom) : Prop :=
  ∃ t, a.truth = .known t ∨ Stated atoms a.type a.name t

/-- A chain of rules leads from an established antecedent to a consequent with the type and the
name. -/
inductive Reached (atoms : List Atom) : Nat → Value → Value → Prop
  | first {rule a c : Atom} (hrule : RuleOf atoms rule a c) (h : Given atoms a) :
    Reached atoms 1 c.type c.name
  | next {rule a c : Atom} {n : Nat} (hrule : RuleOf atoms rule a c)
    (h : Reached atoms n a.type a.name) : Reached atoms (n + 1) c.type c.name

/-- Every rule with an established antecedent has its consequent among the conclusions. -/
def Closed (atoms : List Atom) (ds : List Derivation) : Prop :=
  ∀ {rule a c : Atom}, RuleOf atoms rule a c → Given atoms a ∨ Concluded ds a.type a.name →
    Concluded ds c.type c.name

/-! ## Rules -/

section Rules

variable {atoms : List Atom} {rule a c : Atom}

theorem isRule_iff (hrule : rule.IsKnowledge) (hmem : rule ∈ atoms) :
    rule.isRule = true ↔ ∃ a c, RuleOf atoms rule a c := by
  unfold Atom.isRule Atom.hasType
  rw [Bool.and_eq_true, Value.isText_iff, decide_eq_true_eq]
  constructor
  · rintro ⟨hlabel, hlength⟩
    obtain ⟨m, n, rest, hparts⟩ : ∃ m n rest, rule.outgoing = m :: n :: rest := by
      match hout : rule.outgoing, hlength with
      | m :: n :: rest, _ => exact ⟨m, n, rest, rfl⟩
    obtain ⟨a, rfl⟩ : ∃ a, m = .known a := hrule.slot (hparts ▸ List.mem_cons_self)
    obtain ⟨c, rfl⟩ : ∃ c, n = .known c :=
      hrule.slot (hparts ▸ List.mem_cons_of_mem _ List.mem_cons_self)
    exact ⟨a, c, hmem, hlabel, rest, hparts⟩
  · rintro ⟨a, c, -, hlabel, rest, hparts⟩
    refine ⟨hlabel, ?_⟩
    rw [hparts, List.length_cons, List.length_cons]
    omega

theorem RuleOf.antecedent (h : RuleOf atoms rule a c) (hrule : rule.IsKnowledge) : a.Keyed := by
  obtain ⟨rest, hparts⟩ := h.parts
  have hmem : .known a ∈ rule.outgoing := hparts ▸ List.mem_cons_self
  exact (hrule.atom hmem).here

theorem RuleOf.consequent (h : RuleOf atoms rule a c) (hrule : rule.IsKnowledge) : c.Keyed := by
  obtain ⟨rest, hparts⟩ := h.parts
  have hmem : .known c ∈ rule.outgoing := hparts ▸ List.mem_cons_of_mem _ List.mem_cons_self
  exact (hrule.atom hmem).here

theorem RuleOf.ruleParts (h : RuleOf atoms rule a c) :
    rule.ruleParts = .ok (.known a, .known c) := by
  obtain ⟨rest, hparts⟩ := h.parts
  unfold Atom.ruleParts
  rw [hparts]

theorem ruleTruth_spec (h : rule.Keyed) : ∃ t, rule.ruleTruth = .ok t ∧ RuleTruth rule t := by
  unfold Atom.ruleTruth RuleTruth
  have htruth := h.truth
  cases hslot : rule.truth with
  | known t => exact ⟨t, rfl, .inl rfl⟩
  | raw v =>
    rw [hslot] at htruth
    cases htruth
    exact ⟨⟨1, 0.5⟩, rfl, .inr ⟨rfl, rfl⟩⟩

theorem RuleOf.unique {a' c' : Atom} (h : RuleOf atoms rule a c) (h' : RuleOf atoms rule a' c') :
    a' = a ∧ c' = c := by
  obtain ⟨rest, hparts⟩ := h.parts
  obtain ⟨rest', hparts'⟩ := h'.parts
  rw [hparts] at hparts'
  cases hparts'
  exact ⟨rfl, rfl⟩

end Rules

/-! ## Chains -/

section Chains

variable {atoms : List Atom} {before after : List Derivation}

/-- Every consequent of a chain of at most so many rules is concluded. -/
def Covers (atoms : List Atom) (n : Nat) (ds : List Derivation) : Prop :=
  ∀ m type name, m ≤ n → Reached atoms m type name → Concluded ds type name

/-- Every rule whose antecedent was established before has its consequent concluded after. -/
def Round (atoms : List Atom) (before after : List Derivation) : Prop :=
  ∀ {rule a c : Atom}, RuleOf atoms rule a c → Given atoms a ∨ Concluded before a.type a.name →
    Concluded after c.type c.name

theorem covers_zero (atoms : List Atom) (ds : List Derivation) : Covers atoms 0 ds := by
  intro m type name hm h
  cases h with
  | first => omega
  | next => omega

/-- A round follows each chain one rule further. -/
theorem Round.covers {n : Nat} (hround : Round atoms before after) (h : Covers atoms n before) :
    Covers atoms (n + 1) after := by
  intro m type name hm hreached
  cases hreached with
  | first hrule hgiven => exact hround hrule (.inl hgiven)
  | next hrule hchain => exact hround hrule (.inr (h _ _ _ (by omega) hchain))

/-- Closed conclusions have the consequents of all chains. -/
theorem Closed.covers {ds : List Derivation} (hclosed : Closed atoms ds) (n : Nat) :
    Covers atoms n ds := by
  intro m type name _ hreached
  induction hreached with
  | first hrule hgiven => exact hclosed hrule (.inl hgiven)
  | next hrule _ ih => exact hclosed hrule (.inr (ih (by omega)))

end Chains

/-! ## Single steps -/

/-- What holds of the state between steps: the conclusions follow one from another, none has the
type and the name of another, and what is known are the facts of the knowledge and then the
conclusions. -/
structure Invariant (decay : Float) (atoms : List Atom) (stated : Facts) (s : State) : Prop where
  keys : ∀ e ∈ s.derived, Sharp e.1 ∧ e.2.type = .scalar e.1.1 ∧ e.2.name = .scalar e.1.2
  nodup : s.derived.keys.Nodup
  facts : ∀ key, Sharp key → s.facts.lookup? key =
    (stated.lookup? key).or ((s.derived.lookup? key).map fun d => .known d.truth)
  follows : ∀ before d after, s.derived.values = before ++ d :: after →
    Follows decay atoms before d

/-- The new state has the conclusions of the old one, and after them others of one round. -/
def Extends (depth : Nat) (s s' : State) : Prop :=
  ∃ new, s'.derived = s.derived ++ new ∧ ∀ e ∈ new, e.2.depth = depth

section Steps

variable {config : ReasoningConfig} {decay : Float} {atoms : List Atom} {stated : Facts}
  {s s' : State} {rule a c : Atom} {key : FactKey} {depth : Nat}

theorem Extends.refl (depth : Nat) (s : State) : Extends depth s s :=
  ⟨[], (List.append_nil _).symm, nofun⟩

theorem Extends.trans {t : State} (h : Extends depth s t) (h' : Extends depth t s') :
    Extends depth s s' := by
  obtain ⟨new, ht, hnew⟩ := h
  obtain ⟨new', hs', hnew'⟩ := h'
  refine ⟨new ++ new', by rw [hs', ht, List.append_assoc], fun e he => ?_⟩
  exact (List.mem_append.1 he).elim (hnew e) (hnew' e)

/-- Nothing has been added where the number of conclusions is the same. -/
theorem Extends.derived_eq (h : Extends depth s s') (hsame : s'.derived.length = s.derived.length) :
    s'.derived = s.derived := by
  obtain ⟨new, hs', -⟩ := h
  rw [hs', List.length_append, Nat.add_eq_left] at hsame
  rw [hs', List.eq_nil_of_length_eq_zero hsame, List.append_nil]

theorem Concluded.mono {type name : Value} (h : Concluded s.derived.values type name)
    (hext : Extends depth s s') : Concluded s'.derived.values type name := by
  obtain ⟨new, hs', -⟩ := hext
  obtain ⟨d, hd, htype, hname⟩ := h
  refine ⟨d, ?_, htype, hname⟩
  unfold Table.values at hd ⊢
  rw [hs', List.map_append]
  exact List.mem_append_left _ hd

/-- A rule that is applied concludes its consequent from an established antecedent, or else it rests,
because the consequent is concluded already or the antecedent is not established. -/
inductive Applied (atoms : List Atom) (depth : Nat) (rule a c : Atom) (s : State) : State → Prop
  | rests (h : Given atoms a ∨ Concluded s.derived.values a.type a.name →
      Concluded s.derived.values c.type c.name) : Applied atoms depth rule a c s s
  | concludes {facts : Facts} {key : FactKey} {d : Derivation} {u : TruthValue}
    (hnew : ¬ Concluded s.derived.values c.type c.name)
    (hu : Premise atoms s.derived.values a u) (htype : d.type = c.type) (hname : d.name = c.name)
    (hrule : d.rule = rule.ruleLabel) (hpremise : d.premise = a.name) (hdepth : d.depth = depth) :
    Applied atoms depth rule a c s ⟨facts, s.derived ++ [(key, d)]⟩

theorem Applied.extends (h : Applied atoms depth rule a c s s') : Extends depth s s' := by
  cases h with
  | rests => exact .refl depth s
  | concludes _ _ _ _ _ _ hdepth =>
    refine ⟨_, rfl, fun e he => ?_⟩
    rw [List.mem_singleton.1 he]
    exact hdepth

theorem Applied.concluded (h : Applied atoms depth rule a c s s')
    (ha : Given atoms a ∨ Concluded s.derived.values a.type a.name) :
    Concluded s'.derived.values c.type c.name := by
  cases h with
  | rests h => exact h ha
  | @concludes _ key d _ _ _ htype hname =>
    have hmem : (key, d) ∈ s.derived ++ [(key, d)] := List.mem_append_right _ List.mem_cons_self
    exact ⟨d, List.mem_map_of_mem (f := Prod.snd) hmem, htype, hname⟩

namespace Invariant

theorem start (decay : Float) (atoms : List Atom) (stated : Facts) :
    Invariant decay atoms stated ⟨stated, []⟩ :=
  ⟨nofun, List.nodup_nil, fun _ _ => (Option.or_none).symm, fun before d after h => by
    cases before <;> cases h⟩

variable (hs : Invariant decay atoms stated s)

include hs

theorem concluded_iff (hkey : a.factKey = .ok key) :
    Concluded s.derived.values a.type a.name ↔ key ∈ s.derived.keys := by
  obtain ⟨htype, hname⟩ := Atom.factKey_eq_ok.1 hkey
  unfold Table.keys Table.values
  constructor
  · rintro ⟨d, hd, htype', hname'⟩
    obtain ⟨e, he, rfl⟩ := List.mem_map.1 hd
    obtain ⟨-, hetype, hename⟩ := hs.keys e he
    rw [hetype, htype, Value.scalar.injEq] at htype'
    rw [hename, hname, Value.scalar.injEq] at hname'
    exact List.mem_map.2 ⟨e, he, Prod.ext htype' hname'⟩
  · intro hmem
    obtain ⟨e, he, rfl⟩ := List.mem_map.1 hmem
    obtain ⟨-, hetype, hename⟩ := hs.keys e he
    exact ⟨e.2, List.mem_map_of_mem he, hetype.trans htype.symm, hename.trans hname.symm⟩

theorem premise?_spec (hcover : stated.Cover (Stated atoms)) (ha : a.Keyed) :
    (∃ t, premise? s.facts a = .ok (some t) ∧ Premise atoms s.derived.values a t) ∨
      premise? s.facts a = .ok none ∧
        ¬ (Given atoms a ∨ Concluded s.derived.values a.type a.name) := by
  obtain ⟨key, hkey, hsharp⟩ := ha.exists_key
  obtain ⟨htype, hname⟩ := Atom.factKey_eq_ok.1 hkey
  have htruth := ha.truth
  unfold premise?
  cases hslot : a.truth with
  | known t => exact .inl ⟨t, rfl, .own hslot⟩
  | raw v =>
    rw [hslot] at htruth
    cases htruth
    have hown : a.truth = .empty := hslot
    have habsent : (Slot.raw Value.null : Slot TruthValue).isAbsent = true := rfl
    rw [if_pos habsent, hkey, Except.ok_bind, hs.facts key hsharp]
    cases hstated : stated.lookup? key with
    | some slot =>
      obtain ⟨t, rfl, ht⟩ := hcover.sound hsharp hstated
      rw [← htype, ← hname] at ht
      exact .inl ⟨t, rfl, .stated hown ht⟩
    | none =>
      have hnone : ∀ t, ¬ Stated atoms a.type a.name t := by
        rw [htype, hname]
        exact fun t ht => hcover.complete hsharp ht hstated
      cases hderived : s.derived.lookup? key with
      | some d =>
        have hmem := Table.mem_of_lookup? hsharp hderived
        obtain ⟨-, hdtype, hdname⟩ := hs.keys _ hmem
        exact .inl ⟨d.truth, rfl, .concluded hown hnone (List.mem_map_of_mem (f := Prod.snd) hmem)
          (hdtype.trans htype.symm) (hdname.trans hname.symm) rfl⟩
      | none =>
        refine .inr ⟨rfl, ?_⟩
        rintro (⟨t, ht | ht⟩ | hconcluded)
        · rw [hown] at ht
          cases ht
        · exact hnone t ht
        · exact (Table.lookup?_eq_none hsharp).1 hderived ((hs.concluded_iff hkey).1 hconcluded)

/-- A conclusion that is new is put after the others, and is a fact unless one is stated. -/
theorem conclude {d : Derivation} (hkey : Sharp key) (hnew : key ∉ s.derived.keys)
    (htype : d.type = .scalar key.1) (hname : d.name = .scalar key.2)
    (hfollows : Follows decay atoms s.derived.values d) :
    Invariant decay atoms stated
      ⟨s.facts.putNew key (.known d.truth), s.derived ++ [(key, d)]⟩ := by
  have hnone := (Table.lookup?_eq_none hkey).2 hnew
  refine ⟨fun e he => ?_, ?_, fun k hk => ?_, fun before x after hsplit => ?_⟩
  · rcases List.mem_append.1 he with he | he
    · exact hs.keys e he
    · rw [List.mem_singleton.1 he]
      exact ⟨hkey, htype, hname⟩
  · have hput : s.derived.put key d = s.derived ++ [(key, d)] := Table.put_of_not_mem hkey hnew
    dsimp only
    rw [← hput]
    exact Table.keys_put_nodup hkey hs.nodup
  · dsimp only
    rw [Table.lookup?_append, Table.lookup?_cons]
    rw [Table.lookup?_putNew, hs.facts k hk]
    cases stated.lookup? k <;> cases s.derived.lookup? k <;> split <;> rfl
  · have hvalues : s.derived.values ++ [d] = before ++ x :: after := by
      rw [← hsplit]
      unfold Table.values
      rw [List.map_append]
      rfl
    obtain rfl | ⟨rest, z, rfl⟩ := List.eq_nil_or_concat after
    · obtain ⟨rfl, hx⟩ := List.append_inj' hvalues rfl
      cases hx
      exact hfollows
    · rw [List.concat_eq_append, ← List.cons_append, ← List.append_assoc] at hvalues
      exact hs.follows before x rest (List.append_inj' hvalues rfl).1

theorem applyRule_applied (hcover : stated.Cover (Stated atoms))
    (hdecay : config.deductiveDecay.operand = .ok decay) (hrule : RuleOf atoms rule a c)
    (hknowledge : rule.IsKnowledge) (depth : Nat) :
    ∃ s', applyRule config depth s rule = .ok s' ∧ Invariant decay atoms stated s' ∧
      Applied atoms depth rule a c s s' := by
  obtain ⟨key, hkey, hsharp⟩ := (hrule.consequent hknowledge).exists_key
  obtain ⟨htype, hname⟩ := Atom.factKey_eq_ok.1 hkey
  unfold applyRule
  rw [hrule.ruleParts, Except.ok_bind]
  dsimp only [Slot.get]
  rw [Except.ok_bind, hkey, Except.ok_bind, Except.ok_bind]
  by_cases hold : key ∈ s.derived.keys
  · rw [(Table.has_eq_true hsharp).2 hold]
    exact ⟨s, rfl, hs, .rests fun _ => (hs.concluded_iff hkey).2 hold⟩
  · have hhas : s.derived.has key = false := by
      rw [← Bool.not_eq_true, Table.has_eq_true hsharp]
      exact hold
    rw [hhas, if_neg Bool.false_ne_true]
    obtain ⟨u, hpremise, hu⟩ | ⟨hpremise, hopen⟩ :=
      hs.premise?_spec hcover (hrule.antecedent hknowledge)
    · obtain ⟨t, hruleTruth, ht⟩ := ruleTruth_spec hknowledge.here
      rw [hpremise, Except.ok_bind]
      dsimp only
      rw [hruleTruth, Except.ok_bind, Deduction.conclude, hdecay]
      let d : Derivation := {
        type := c.type
        name := c.name
        truth := .of (t.strength * u.strength) (least t.confidence u.confidence * decay)
        rule := rule.ruleLabel
        premise := a.name
        depth }
      have hfollows : Follows decay atoms s.derived.values d := .intro hrule ht hu rfl rfl rfl
      exact ⟨⟨s.facts.putNew key (.known d.truth), s.derived ++ [(key, d)]⟩, rfl,
        hs.conclude hsharp hold htype hname hfollows,
        .concludes (mt (hs.concluded_iff hkey).1 hold) hu rfl rfl rfl rfl rfl⟩
    · rw [hpremise]
      exact ⟨s, rfl, hs, .rests fun h => absurd h hopen⟩

/-- A rule that is applied has its consequent among the conclusions if its antecedent is
established. -/
theorem applyRule_spec (hcover : stated.Cover (Stated atoms))
    (hdecay : config.deductiveDecay.operand = .ok decay) (hrule : RuleOf atoms rule a c)
    (hknowledge : rule.IsKnowledge) (depth : Nat) :
    ∃ s', applyRule config depth s rule = .ok s' ∧ Invariant decay atoms stated s' ∧
      Extends depth s s' ∧ (Given atoms a ∨ Concluded s.derived.values a.type a.name →
        Concluded s'.derived.values c.type c.name) := by
  obtain ⟨s', happly, hs', happlied⟩ := hs.applyRule_applied hcover hdecay hrule hknowledge depth
  exact ⟨s', happly, hs', happlied.extends, happlied.concluded⟩

end Invariant

/-- A round applies every rule to what was concluded before it. -/
theorem applyRules_spec (hcover : stated.Cover (Stated atoms))
    (hdecay : config.deductiveDecay.operand = .ok decay) (hatoms : ∀ a ∈ atoms, a.IsKnowledge)
    (depth : Nat) {rules : List Atom} (hrules : ∀ rule ∈ rules, ∃ a c, RuleOf atoms rule a c) :
    ∀ {s : State}, Invariant decay atoms stated s →
      ∃ s', applyRules config depth s rules = .ok s' ∧ Invariant decay atoms stated s' ∧
        Extends depth s s' ∧ ∀ {rule a c : Atom}, rule ∈ rules → RuleOf atoms rule a c →
          Given atoms a ∨ Concluded s.derived.values a.type a.name →
            Concluded s'.derived.values c.type c.name := by
  induction rules with
  | nil => exact fun {s} hs => ⟨s, rfl, hs, .refl depth s, nofun⟩
  | cons first rest ih =>
    intro s hs
    obtain ⟨a, c, hfirst⟩ := hrules first List.mem_cons_self
    obtain ⟨t, happly, ht, hext, hnew⟩ :=
      hs.applyRule_spec hcover hdecay hfirst (hatoms _ hfirst.mem) depth
    obtain ⟨s', hrest, hs', hext', hnew'⟩ :=
      ih (fun rule hrule => hrules rule (List.mem_cons_of_mem _ hrule)) ht
    refine ⟨s', ?_, hs', hext.trans hext', ?_⟩
    · unfold applyRules at hrest ⊢
      rw [List.foldlM_cons, happly]
      exact hrest
    · rintro rule a' c' (_ | ⟨_, hmem⟩) hrule hestablished
      · obtain ⟨rfl, rfl⟩ := hfirst.unique hrule
        exact (hnew hestablished).mono hext'
      · exact hnew' hmem hrule (hestablished.imp_right fun h => h.mono hext)

theorem rules_spec (hatoms : ∀ a ∈ atoms, a.IsKnowledge) :
    ∀ rule, rule ∈ atoms.filter Atom.isRule ↔ ∃ a c, RuleOf atoms rule a c := by
  intro rule
  rw [List.mem_filter]
  constructor
  · rintro ⟨hmem, hrule⟩
    exact (isRule_iff (hatoms rule hmem) hmem).1 hrule
  · rintro ⟨a, c, hrule⟩
    exact ⟨hrule.mem, (isRule_iff (hatoms rule hrule.mem) hrule.mem).2 ⟨a, c, hrule⟩⟩

/-- A round that adds nothing leaves the conclusions closed under the rules. -/
theorem closed_of_unchanged (hcover : stated.Cover (Stated atoms))
    (hdecay : config.deductiveDecay.operand = .ok decay) (hatoms : ∀ a ∈ atoms, a.IsKnowledge)
    (hs : Invariant decay atoms stated s)
    (h : applyRules config depth s (atoms.filter Atom.isRule) = .ok s')
    (hsame : s'.derived.length = s.derived.length) : Closed atoms s'.derived.values := by
  obtain ⟨t, happly, -, hext, hround⟩ := applyRules_spec hcover hdecay hatoms depth
    (fun rule => (rules_spec hatoms rule).1) hs
  cases h.symm.trans happly
  rw [hext.derived_eq hsame] at hround ⊢
  exact fun hrule => hround ((rules_spec hatoms _).2 ⟨_, _, hrule⟩) hrule

/-- The rounds from one on. The induction is on the number of rounds that are left: a round that
adds nothing leaves the conclusions closed, and another one follows every chain one rule
further. -/
theorem rounds_spec (hcover : stated.Cover (Stated atoms))
    (hdecay : config.deductiveDecay.operand = .ok decay) (hatoms : ∀ a ∈ atoms, a.IsKnowledge) :
    ∀ (left : Nat) {depth : Nat} {s : State}, Invariant decay atoms stated s →
      Covers atoms depth s.derived.values →
      ∃ s', rounds config (atoms.filter Atom.isRule) left (depth + 1) s = .ok s' ∧
        Invariant decay atoms stated s' ∧ Covers atoms (depth + left) s'.derived.values ∧
        (∃ new, s'.derived = s.derived ++ new) ∧
        ∀ r, depth < r → r ≤ depth + left → (∀ d ∈ s'.derived.values, d.depth ≠ r) →
          Closed atoms s'.derived.values := by
  intro left
  induction left with
  | zero =>
    intro depth s hs hcovers
    exact ⟨s, rfl, hs, hcovers, ⟨[], (List.append_nil _).symm⟩, fun r h h' => by omega⟩
  | succ left ih =>
    intro depth s hs hcovers
    obtain ⟨t, happly, ht, ⟨new, hnew, hdepth⟩, hround⟩ := applyRules_spec hcover hdecay hatoms
      (depth + 1) (fun rule => (rules_spec hatoms rule).1) hs
    have hround : Round atoms s.derived.values t.derived.values := fun hrule =>
      hround ((rules_spec hatoms _).2 ⟨_, _, hrule⟩) hrule
    rw [rounds, happly, Except.ok_bind]
    by_cases hsame : t.derived.length = s.derived.length
    · have hclosed : Closed atoms t.derived.values :=
        closed_of_unchanged hcover hdecay hatoms hs happly hsame
      rw [if_pos hsame]
      exact ⟨t, rfl, ht, hclosed.covers _, ⟨new, hnew⟩, fun _ _ _ _ => hclosed⟩
    · rw [if_neg hsame]
      obtain ⟨s', hrounds, hs', hcovers', ⟨more, hmore⟩, hclosed⟩ := ih ht (hround.covers hcovers)
      refine ⟨s', hrounds, hs', ?_, ⟨new ++ more, ?_⟩, fun r hlow hhigh hr => ?_⟩
      · have hsum : depth + 1 + left = depth + (left + 1) := by omega
        exact hsum ▸ hcovers'
      · rw [hmore, hnew, List.append_assoc]
      · by_cases hfirst : r = depth + 1
        · -- A round that goes on has added a conclusion, and its depth is that of the round.
          obtain ⟨e, he⟩ : ∃ e, e ∈ new := by
            refine List.exists_mem_of_ne_nil new fun hnil => hsame ?_
            rw [hnew, hnil, List.append_nil]
          have hmem : e ∈ s'.derived := by
            rw [hmore, hnew]
            exact List.mem_append_left _ (List.mem_append_right _ he)
          exact absurd ((hdepth e he).trans hfirst.symm) (hr e.2 (List.mem_map_of_mem hmem))
        · exact hclosed r (by omega) (by omega) hr

/-- No two conclusions have both the type and the name in common. -/
theorem Invariant.distinct (hs : Invariant decay atoms stated s) :
    s.derived.values.Pairwise fun x y => x.type = y.type → x.name ≠ y.name := by
  have hnodup := hs.nodup
  unfold Table.keys List.Nodup at hnodup
  unfold Table.values
  rw [List.pairwise_map] at hnodup ⊢
  refine hnodup.imp_of_mem fun {x y} hx hy hne htype hname => hne ?_
  obtain ⟨-, hxtype, hxname⟩ := hs.keys x hx
  obtain ⟨-, hytype, hyname⟩ := hs.keys y hy
  rw [hxtype, hytype, Value.scalar.injEq] at htype
  rw [hxname, hyname, Value.scalar.injEq] at hname
  exact Prod.ext htype hname

theorem Follows.name {earlier : List Derivation} {d : Derivation} (h : Follows decay atoms earlier d)
    (hatoms : ∀ a ∈ atoms, a.IsKnowledge) : d.name.IsTextOrNull := by
  obtain ⟨hrule, -, -, -, hname, -⟩ := h
  obtain ⟨rest, hparts⟩ := hrule.parts
  have hconsequent := (hatoms _ hrule.mem).atom (hparts ▸ List.mem_cons_of_mem _ List.mem_cons_self)
  exact hname ▸ hconsequent.here.name

theorem Invariant.names (hs : Invariant decay atoms stated s) (hatoms : ∀ a ∈ atoms, a.IsKnowledge) :
    ∀ d ∈ s.derived.values, d.name.IsTextOrNull := by
  intro d hd
  obtain ⟨before, after, hsplit⟩ := List.append_of_mem hd
  exact (hs.follows before d after hsplit).name hatoms

end Steps

/-! ## Runs that come out well -/

section Runs

variable {config : ReasoningConfig} {atoms rules : List Atom} {depth : Nat} {s t : State}
  {rule : Atom} {d : Deduction}

theorem rounds_keeps {P : State → Prop} (hstep : ∀ rule ∈ rules, ∀ {depth : Nat} {s t : State},
    P s → applyRule config depth s rule = .ok t → P t) :
    ∀ (left : Nat) {depth : Nat} {s t : State}, P s →
      rounds config rules left depth s = .ok t → P t := by
  intro left
  induction left with
  | zero =>
    rintro depth s _ hs ⟨⟩
    exact hs
  | succ left ih =>
    intro depth s t hs h
    obtain ⟨u, happly, h⟩ := Except.bind_eq_ok.1 h
    have hu : P u := Except.foldlM_keeps (fun rule hrule => hstep rule hrule) hs happly
    split at h
    · cases h
      exact hu
    · exact ih hu h

/-- A rule changes nothing unless its conclusion can be given a truth value. -/
theorem applyRule_eq_self_or (h : applyRule config depth s rule = .ok t) :
    t = s ∨ ∃ decay, config.deductiveDecay.operand = .ok decay := by
  unfold applyRule at h
  obtain ⟨⟨antecedent, consequent⟩, -, h⟩ := Except.bind_eq_ok.1 h
  obtain ⟨c, -, h⟩ := Except.bind_eq_ok.1 h
  obtain ⟨key, -, h⟩ := Except.bind_eq_ok.1 h
  split at h
  · cases h
    exact .inl rfl
  · obtain ⟨a, -, h⟩ := Except.bind_eq_ok.1 h
    obtain ⟨premise, -, h⟩ := Except.bind_eq_ok.1 h
    cases premise with
    | none =>
      cases h
      exact .inl rfl
    | some u =>
      obtain ⟨t, -, h⟩ := Except.bind_eq_ok.1 h
      obtain ⟨truth, htruth, -⟩ := Except.bind_eq_ok.1 h
      obtain ⟨decay, hdecay, -⟩ := Except.bind_eq_ok.1 htruth
      exact .inr ⟨decay, hdecay⟩

theorem ofAtoms_eq_ok : ofAtoms config atoms = .ok d ↔ ∃ stated limit s,
    knownFacts atoms = .ok stated ∧ config.maxDepth.whole = .ok limit ∧
      rounds config (atoms.filter Atom.isRule) limit.toNat 1 ⟨stated, []⟩ = .ok s ∧
      d = ⟨(atoms.filter Atom.isRule).length, s.derived.values⟩ := by
  unfold ofAtoms
  simp only [Except.bind_eq_ok, Except.pure_eq, Except.ok.injEq]
  constructor
  · rintro ⟨stated, hstated, limit, hlimit, s, hrounds, rfl⟩
    exact ⟨stated, limit, s, hstated, hlimit, hrounds, rfl⟩
  · rintro ⟨stated, limit, s, hstated, hlimit, hrounds, rfl⟩
    exact ⟨stated, hstated, limit, hlimit, s, hrounds, rfl⟩

/-- Where there are conclusions, confidences can be multiplied by the decay. -/
theorem exists_decay (h : ofAtoms config atoms = .ok d) (hne : d.derivations ≠ []) :
    ∃ decay, config.deductiveDecay.operand = .ok decay := by
  obtain ⟨stated, limit, s, -, -, hrounds, rfl⟩ := ofAtoms_eq_ok.1 h
  have hkept : s.derived = [] ∨ ∃ decay, config.deductiveDecay.operand = .ok decay := by
    refine rounds_keeps (P := fun s => s.derived = [] ∨ _) (fun rule _ {_ s t} hs happly => ?_)
      limit.toNat (.inl rfl) hrounds
    obtain rfl | hdecay := applyRule_eq_self_or happly
    · exact hs
    · exact .inr hdecay
  refine hkept.resolve_left fun hnil => hne ?_
  rw [hnil]
  rfl

theorem conclusion_of_answer {answer : Answer} (h : d.answer config = .ok answer) :
    answer.conclusion = d.derivations.map Derivation.toAtom := by
  unfold Deduction.answer at h
  split at h
  · rename_i hnone
    cases h
    rw [List.isEmpty_iff.1 hnone]
    rfl
  · obtain ⟨confidence, -, h⟩ := Except.bind_eq_ok.1 h
    obtain ⟨names, -, h⟩ := Except.bind_eq_ok.1 h
    cases h
    rfl

end Runs

/-! ## Whole deductions -/

variable {config : ReasoningConfig} {atoms : List Atom} {decay ceiling : Float} {limit : Int}

theorem ofAtoms_eq {stated : Facts} {s : State} (hstated : knownFacts atoms = .ok stated)
    (hlimit : config.maxDepth.whole = .ok limit)
    (hrounds : rounds config (atoms.filter Atom.isRule) limit.toNat 1 ⟨stated, []⟩ = .ok s) :
    ofAtoms config atoms = .ok ⟨(atoms.filter Atom.isRule).length, s.derived.values⟩ := by
  unfold ofAtoms
  rw [hstated, Except.ok_bind, hlimit, Except.ok_bind, hrounds]
  rfl

/-- What a deduction concludes from knowledge is named by texts or by nothing. -/
theorem names_ofAtoms {d : Deduction} (hatoms : ∀ a ∈ atoms, a.IsKnowledge)
    (h : ofAtoms config atoms = .ok d) : ∀ c ∈ d.derivations, c.name.IsTextOrNull := by
  by_cases hnone : d.derivations = []
  · rw [hnone]
    exact List.forall_mem_nil _
  obtain ⟨decay, hdecay⟩ := exists_decay h hnone
  obtain ⟨stated, limit, s, hstated, hlimit, hrounds, rfl⟩ := ofAtoms_eq_ok.1 h
  obtain ⟨facts, hfacts, hcover⟩ := knownFacts_cover hatoms
  cases hstated.symm.trans hfacts
  obtain ⟨t, ht, hinvariant, -⟩ := rounds_spec hcover hdecay hatoms limit.toNat
    (Invariant.start decay atoms stated) (covers_zero atoms _)
  cases hrounds.symm.trans ht
  exact hinvariant.names hatoms

theorem answer_spec (hceiling : config.deductiveCeiling.operand = .ok ceiling) {d : Deduction}
    (hnames : ∀ c ∈ d.derivations, c.name.IsTextOrNull) :
    ∃ answer, d.answer config = .ok answer ∧
      answer.conclusion = d.derivations.map Derivation.toAtom := by
  have htexts : d.derivations.mapM (·.name.toText) = .ok (d.derivations.map (·.name.display)) :=
    Except.mapM_of_forall fun c hc => Value.toText_of_isWritable (hnames c hc).isWritable
  unfold answer confidence
  by_cases hnone : d.derivations.isEmpty
  · rw [if_pos hnone, List.isEmpty_iff.1 hnone]
    exact ⟨_, rfl, rfl⟩
  · obtain ⟨x, hx⟩ := Value.capped_eq_ok hceiling (mean (d.derivations.map (·.truth.confidence)))
    rw [if_neg hnone, hx, htexts]
    exact ⟨_, rfl, rfl⟩

/-- **Deduction.** From knowledge with any names and under any limit, each conclusion follows from
a rule, a premise and the conclusions before it; no two have the same type and name; the consequents
of all chains of at most as many rules as the limit says are concluded; and if one of the rounds
within the limit adds nothing, the conclusions are closed under all rules. -/
theorem deduction_correct (hatoms : ∀ a ∈ atoms, a.IsKnowledge)
    (hdecay : config.deductiveDecay.operand = .ok decay)
    (hceiling : config.deductiveCeiling.operand = .ok ceiling)
    (hlimit : config.maxDepth.whole = .ok limit) :
    ∃ ds answer, (do (← ofAtoms config atoms).answer config) = .ok answer ∧
      answer.conclusion = ds.map Derivation.toAtom ∧
      (∀ before d after, ds = before ++ d :: after → Follows decay atoms before d) ∧
      (ds.Pairwise fun x y => x.type = y.type → x.name ≠ y.name) ∧
      (∀ (n : Nat) type name, (n : Int) ≤ limit → Reached atoms n type name →
        Concluded ds type name) ∧
      ∀ r : Nat, 1 ≤ r → (r : Int) ≤ limit → (∀ d ∈ ds, d.depth ≠ r) → Closed atoms ds := by
  obtain ⟨stated, hstated, hcover⟩ := knownFacts_cover hatoms
  obtain ⟨s, hrounds, hs, hcovers, -, hclosed⟩ := rounds_spec hcover hdecay hatoms
    limit.toNat (Invariant.start decay atoms stated) (covers_zero atoms _)
  obtain ⟨answer, hanswer, hconclusion⟩ := answer_spec hceiling
    (d := ⟨(atoms.filter Atom.isRule).length, s.derived.values⟩) (hs.names hatoms)
  refine ⟨s.derived.values, answer, ?_, hconclusion, hs.follows, hs.distinct,
    fun n type name hn hreached => ?_, fun r hlow hhigh => ?_⟩
  · rw [ofAtoms_eq hstated hlimit hrounds]
    exact hanswer
  · exact hcovers n type name (by omega) hreached
  · exact hclosed r (by omega) (by omega)

/-- Rain that makes wet, where wet makes slippery, makes slippery in two rounds. -/
theorem deduction_correct_rain :
    let node (name : String) : Atom := .make .conceptNode (.text name) none [] []
    let rule (antecedent consequent : String) : Atom :=
      .make .implicationLink .null none [] [node antecedent, node consequent]
    let rain : Atom := .make .conceptNode (.text "rain") (some ⟨0.5, 1⟩) [] []
    let atoms := [rain, rule "wet" "slippery", rule "rain" "wet"]
    ∃ ds answer, (do (← ofAtoms {} atoms).answer {}) = .ok answer ∧
      answer.conclusion = ds.map Derivation.toAtom ∧
      Concluded ds (.text "ConceptNode") (.text "slippery") := by
  intro node rule rain atoms
  have hnode (name : String) : (node name).IsKnowledge :=
    .intro ⟨⟨_, rfl⟩, .inr ⟨name, rfl⟩, .empty⟩ (fun _ h => nomatch h) fun _ h => nomatch h
  have hrule (antecedent consequent : String) : (rule antecedent consequent).IsKnowledge := by
    refine .intro ⟨⟨_, rfl⟩, .inl rfl, .empty⟩ (fun m hm => ?_) fun b hb => ?_
    · obtain ⟨b, -, rfl⟩ := List.mem_map.1 hm
      exact ⟨b, rfl⟩
    · obtain ⟨b', hb', heq⟩ := List.mem_map.1 hb
      cases heq
      rcases List.mem_cons.1 hb' with rfl | hb'
      · exact hnode antecedent
      · exact List.mem_singleton.1 hb' ▸ hnode consequent
  have hrain : rain.IsKnowledge :=
    .intro ⟨⟨_, rfl⟩, .inr ⟨_, rfl⟩, .known trivial⟩ (fun _ h => nomatch h) fun _ h => nomatch h
  have hatoms : ∀ a ∈ atoms, a.IsKnowledge := by
    rw [List.forall_mem_cons, List.forall_mem_cons, List.forall_mem_singleton]
    exact ⟨hrain, hrule _ _, hrule _ _⟩
  have hwet : RuleOf atoms (rule "rain" "wet") (node "rain") (node "wet") :=
    ⟨List.mem_cons_of_mem _ (List.mem_cons_of_mem _ List.mem_cons_self), rfl, [], rfl⟩
  have hslippery : RuleOf atoms (rule "wet" "slippery") (node "wet") (node "slippery") :=
    ⟨List.mem_cons_of_mem _ List.mem_cons_self, rfl, [], rfl⟩
  have hgiven : Given atoms (node "rain") := by
    have hnoRule : rain.isRule = false := by decide +kernel
    exact ⟨⟨0.5, 1⟩, .inr ⟨rain, .top List.mem_cons_self, rfl, hnoRule, rfl, rfl, rfl⟩⟩
  have hdecay : ({} : ReasoningConfig).deductiveDecay.operand = .ok 0.95 := rfl
  have hceiling : ({} : ReasoningConfig).deductiveCeiling.operand = .ok 0.95 := rfl
  have hlimit : ({} : ReasoningConfig).maxDepth.whole = .ok 3 := rfl
  obtain ⟨ds, answer, hanswer, hconclusion, -, -, hchains, -⟩ :=
    deduction_correct hatoms hdecay hceiling hlimit
  exact ⟨ds, answer, hanswer, hconclusion,
    hchains 2 _ _ (by decide) (.next hslippery (.first hwet hgiven))⟩

end KnowledgeGraph.Deduction
