import KnowledgeGraph.Proofs.Reasoning.Traversal

/-!
# Known facts

`Stated atoms type name t` says that a named atom among the given ones, or anywhere in what goes out
from them, has this type, this name and the truth value `t`, and is no rule. These are the atoms that
are visited (`mem_visits`), so the facts that are gathered from knowledge are the stated ones: for
each type and name one of them is known if there are any (`knownFacts_cover`).
-/

namespace KnowledgeGraph

namespace Atom

/-! ## Knowledge -/

/-- Something that facts can be known about: the type is a text, the name a text or null, and the
truth value, if there is one, is a truth value. -/
structure Keyed (a : Atom) : Prop where
  type : ∃ s, a.type = .text s
  name : a.name = .null ∨ ∃ s, a.name = .text s
  truth : a.truth.Fits fun _ => True

/-- An atom to reason over: facts can be known about it and about everything that goes out from
it. -/
abbrev IsKnowledge (a : Atom) : Prop := a.Deep outgoing Keyed

/-- The atoms of a list and, at every depth, those that go out from them. -/
inductive Within (members : List (Slot Atom)) : Atom → Prop
  | top {a : Atom} (h : .known a ∈ members) : Within members a
  | out {a b : Atom} (h : Within members a) (hb : .known b ∈ a.outgoing) : Within members b

/-- The atom states a fact: it has a name, is no rule, and has a truth value. -/
structure States (a : Atom) (type name : Value) (t : TruthValue) : Prop where
  named : a.isNamed = true
  noRule : a.isRule = false
  type : a.type = type
  name : a.name = name
  truth : a.truth = .known t

variable {a b : Atom} {members : List (Slot Atom)} {key : FactKey}

theorem Keyed.labeled (h : a.Keyed) : a.Labeled where
  type := let ⟨s, hs⟩ := h.type; ⟨.text s, hs⟩
  name := h.name

/-- What facts about an atom are known by is told apart from everything else. -/
theorem Keyed.exists_key (h : a.Keyed) : ∃ key, a.factKey = .ok key ∧ Key.Sharp key := by
  obtain ⟨s, htype⟩ := h.type
  obtain hname | ⟨n, hname⟩ := h.name
  · exact ⟨(.text s, .null), factKey_eq_ok.2 ⟨htype, hname⟩,
      (Key.sharp_text s).pair Key.sharp_null⟩
  · exact ⟨(.text s, .text n), factKey_eq_ok.2 ⟨htype, hname⟩,
      (Key.sharp_text s).pair (Key.sharp_text n)⟩

/-! ## Going through atoms -/

theorem Within.mono {rest : List (Slot Atom)} (hsub : ∀ m ∈ members, m ∈ rest)
    (h : Within members a) : Within rest a := by
  induction h with
  | top h => exact .top (hsub _ h)
  | out _ hb ih => exact .out ih hb

theorem Within.trans (ha : Within members a) (h : Within a.outgoing b) : Within members b := by
  induction h with
  | top hb => exact .out ha hb
  | out _ hb ih => exact .out ih hb

theorem Stands.within {place : List ℕ} (h : Stands members place a) : Within members a := by
  induction h with
  | top h => exact .top (List.mem_of_getElem? h)
  | out h _ ih => exact (Within.top (List.mem_of_getElem? h)).trans ih

theorem Stands.exists_out {place : List ℕ} (h : Stands members place a)
    (hb : .known b ∈ a.outgoing) : ∃ place', Stands members place' b := by
  induction h with
  | top h =>
    obtain ⟨j, hj⟩ := List.mem_iff_getElem?.1 hb
    exact ⟨_, .out h (.top hj)⟩
  | out h _ ih =>
    obtain ⟨place', hplace'⟩ := ih hb
    exact ⟨_, .out h hplace'⟩

theorem Within.exists_stands (h : Within members a) : ∃ place, Stands members place a := by
  induction h with
  | top h =>
    obtain ⟨i, hi⟩ := List.mem_iff_getElem?.1 h
    exact ⟨_, .top hi⟩
  | out _ hb ih =>
    obtain ⟨place, hplace⟩ := ih
    exact hplace.exists_out hb

theorem mem_visits : a ∈ visits members ↔ Within members a := by
  unfold visits
  rw [List.mem_map]
  constructor
  · rintro ⟨⟨place, a⟩, hmem, rfl⟩
    exact (((isTraversal_walkOf members).reached place a).1 hmem).within
  · intro h
    obtain ⟨place, hplace⟩ := h.exists_stands
    exact ⟨(place, a), ((isTraversal_walkOf members).reached place a).2 hplace, rfl⟩

/-- A fact that can be told from all others is stated under its key. -/
theorem statesUnder_iff (ha : a.Keyed) (hkey : Key.Sharp key) : a.statesUnder key = true ↔
    ∃ t, a.States (.scalar key.1) (.scalar key.2) t := by
  obtain ⟨k, hk, hsharp⟩ := ha.exists_key
  have hsame : Key.same k key = true ↔ a.type = .scalar key.1 ∧ a.name = .scalar key.2 := by
    rw [← factKey_eq_ok, hk, Except.ok.injEq]
    exact hkey k
  unfold statesUnder
  rw [hk]
  simp only [Bool.and_eq_true, Bool.not_eq_true', hsame]
  constructor
  · rintro ⟨⟨⟨hpresent, hnamed⟩, hrule⟩, htype, hname⟩
    obtain ⟨t, ht⟩ := ha.truth.exists_known hpresent
    exact ⟨t, hnamed, hrule, htype, hname, ht⟩
  · rintro ⟨t, h⟩
    rw [h.truth]
    exact ⟨⟨⟨rfl, h.named⟩, h.noRule⟩, h.type, h.name⟩

end Atom

/-! ## Known facts -/

/-- For each type and name, one of the facts that hold of them is known if there are any. -/
structure Facts.Cover (facts : Facts) (holds : Value → Value → TruthValue → Prop) : Prop where
  sound : ∀ {key : FactKey} {slot : Slot TruthValue}, Key.Sharp key →
    facts.lookup? key = some slot → ∃ t, slot = .known t ∧ holds (.scalar key.1) (.scalar key.2) t
  complete : ∀ {key : FactKey} {t : TruthValue}, Key.Sharp key →
    holds (.scalar key.1) (.scalar key.2) t → facts.lookup? key ≠ none

/-- Some atom within a list states the fact. -/
def Stated (atoms : List Atom) (type name : Value) (t : TruthValue) : Prop :=
  ∃ a, Atom.Within (atoms.map .known) a ∧ a.States type name t

/-- **Known facts.** The facts that are gathered from knowledge are those stated in it. -/
theorem knownFacts_cover {atoms : List Atom} (hatoms : ∀ a ∈ atoms, a.IsKnowledge) :
    ∃ facts, knownFacts atoms = .ok facts ∧ Facts.Cover facts (Stated atoms) := by
  obtain ⟨facts, hfacts, -, hfound⟩ := knownFacts_visits fun a ha => (hatoms a ha).imp fun _ =>
    Atom.Keyed.labeled
  have hkeyed : ∀ a ∈ Atom.visits (atoms.map .known), a.Keyed := by
    intro a ha
    obtain ⟨place, hplace⟩ := (Atom.mem_visits.1 ha).exists_stands
    exact (hplace.deep fun m hm => (List.mem_map.1 hm).imp fun b hb => ⟨hb.2.symm, hatoms b hb.1⟩).here
  refine ⟨facts, hfacts, fun {key slot} hkey hslot => ?_, fun {key t} hkey hstated hnone => ?_⟩
  · rw [hfound] at hslot
    obtain ⟨a, ha, rfl⟩ := Option.map_eq_some_iff.1 hslot
    have hmem := List.mem_of_find?_eq_some ha
    obtain ⟨t, ht⟩ := (Atom.statesUnder_iff (hkeyed a hmem) hkey).1 (List.find?_some ha)
    exact ⟨t, ht.truth, a, Atom.mem_visits.1 hmem, ht⟩
  · obtain ⟨a, ha, ht⟩ := hstated
    have hmem := Atom.mem_visits.2 ha
    rw [hfound, Option.map_eq_none_iff, List.find?_eq_none] at hnone
    exact hnone a hmem ((Atom.statesUnder_iff (hkeyed a hmem) hkey).2 ⟨t, ht⟩)

end KnowledgeGraph
