import KnowledgeGraph.Reasoning.Fact
import KnowledgeGraph.Proofs.Atom.Deep
import KnowledgeGraph.Proofs.Value
import KnowledgeGraph.Proofs.Value.Same

/-!
# Going through a forest

An atom stands in a forest at a place: the number of its tree, then at each level the number of the
member that leads to it (`Stands`). The recursive traversal `walkOf` lists all places, each before
those below it and of neighbours the last one first (`isTraversal_walkOf`). The loop that gathers
facts from a stack visits the atoms in this order (`gathers_of_notes`), so the fact that it knows
under a key is that of the first atom of the traversal that states one (`knownFacts_exact`).
-/

namespace KnowledgeGraph

namespace Atom

variable {a b : Atom} {members rest : List (Slot Atom)} {place : List ℕ} {i : ℕ}

/-! ## Places -/

/-- An atom stands at a place in a forest. -/
inductive Stands : List (Slot Atom) → List ℕ → Atom → Prop
  | top {members : List (Slot Atom)} {i : ℕ} {a : Atom} (h : members[i]? = some (.known a)) :
    Stands members [i] a
  | out {members : List (Slot Atom)} {i : ℕ} {a : Atom} {place : List ℕ} {b : Atom}
    (h : members[i]? = some (.known a)) (hb : Stands a.outgoing place b) :
    Stands members (i :: place) b

/-- One place comes before another: a place before those below it, and all that stands in a later
member before all that stands in an earlier one. -/
inductive Earlier : List ℕ → List ℕ → Prop
  | above {i : ℕ} {place : List ℕ} : Earlier [] (i :: place)
  | beside {i j : ℕ} {place place' : List ℕ} (h : j < i) : Earlier (i :: place) (j :: place')
  | within {i : ℕ} {place place' : List ℕ} (h : Earlier place place') :
    Earlier (i :: place) (i :: place')

theorem Earlier.ne {place place' : List ℕ} (h : Earlier place place') : place ≠ place' := by
  induction h with
  | above => exact (List.cons_ne_nil _ _).symm
  | beside h => exact fun heq => h.ne' (List.cons.inj heq).1
  | within _ ih => exact fun heq => ih (List.cons.inj heq).2

/-! ## The recursive traversal -/

mutual

/-- An atom and all that goes out from it, with their places below it. -/
def walk : Atom → List (List ℕ × Atom)
  | ⟨type, name, id, truth, attention, outgoing, incoming, metadata⟩ =>
    ([], ⟨type, name, id, truth, attention, outgoing, incoming, metadata⟩) :: walkOf 0 outgoing

/-- The atoms of a forest with their places, where the first tree has the number `i`. -/
def walkOf (i : ℕ) : List (Slot Atom) → List (List ℕ × Atom)
  | [] => []
  | .known a :: rest => walkOf (i + 1) rest ++ (walk a).map fun e => (i :: e.1, e.2)
  | .raw _ :: rest => walkOf (i + 1) rest

end

theorem walk_eq (a : Atom) : a.walk = ([], a) :: walkOf 0 a.outgoing := by
  cases a
  rw [walk]

/-- The places of a forest are told by its members and the places below them. -/
theorem stands_cons : Stands members (i :: place) b ↔
    ∃ a, members[i]? = some (.known a) ∧ (place = [] ∧ b = a ∨ Stands a.outgoing place b) := by
  constructor
  · intro h
    cases h with
    | top h => exact ⟨b, h, .inl ⟨rfl, rfl⟩⟩
    | out h hb => exact ⟨_, h, .inr hb⟩
  · rintro ⟨a, h, ⟨rfl, rfl⟩ | hb⟩
    · exact .top h
    · exact .out h hb

theorem stands_tail {m : Slot Atom} :
    Stands (m :: rest) ((i + 1) :: place) b ↔ Stands rest (i :: place) b := by
  rw [stands_cons, stands_cons, List.getElem?_cons_succ]

theorem Stands.exists_cons (h : Stands members place b) : ∃ i below, place = i :: below := by
  cases h with
  | top => exact ⟨_, _, rfl⟩
  | out => exact ⟨_, _, rfl⟩

mutual

theorem mem_walk : ∀ {a b : Atom} {place : List ℕ},
    (place, b) ∈ a.walk ↔ place = [] ∧ b = a ∨ Stands a.outgoing place b
  | ⟨type, name, id, truth, attention, outgoing, incoming, metadata⟩, b, place => by
    rw [walk, List.mem_cons, Prod.mk.injEq]
    refine or_congr_right ?_
    constructor
    · intro h
      obtain ⟨j, below, rfl, hb⟩ := mem_walkOf.1 h
      rwa [Nat.zero_add]
    · intro h
      obtain ⟨j, below, rfl⟩ := h.exists_cons
      exact mem_walkOf.2 ⟨j, below, by rw [Nat.zero_add], h⟩

theorem mem_walkOf : ∀ {members : List (Slot Atom)} {b : Atom} {i : ℕ} {place : List ℕ},
    (place, b) ∈ walkOf i members ↔
      ∃ j below, place = (i + j) :: below ∧ Stands members (j :: below) b
  | [], b, i, place => by
    rw [walkOf]
    refine iff_of_false List.not_mem_nil ?_
    rintro ⟨j, below, -, h⟩
    obtain ⟨a, ha, -⟩ := stands_cons.1 h
    cases ha
  | .raw v :: rest, b, i, place => by
    rw [walkOf, mem_walkOf]
    constructor
    · rintro ⟨j, below, rfl, h⟩
      exact ⟨j + 1, below, by rw [Nat.add_right_comm, Nat.add_assoc], stands_tail.2 h⟩
    · rintro ⟨j, below, rfl, h⟩
      cases j with
      | zero =>
        obtain ⟨a, ha, -⟩ := stands_cons.1 h
        cases ha
      | succ j => exact ⟨j, below, by rw [Nat.add_right_comm, Nat.add_assoc], stands_tail.1 h⟩
  | .known a :: rest, b, i, place => by
    rw [walkOf, List.mem_append, mem_walkOf, List.mem_map]
    constructor
    · rintro (⟨j, below, rfl, h⟩ | ⟨⟨below, b'⟩, h, heq⟩)
      · exact ⟨j + 1, below, by rw [Nat.add_right_comm, Nat.add_assoc], stands_tail.2 h⟩
      · cases heq
        exact ⟨0, below, rfl, stands_cons.2 ⟨a, rfl, mem_walk.1 h⟩⟩
    · rintro ⟨j, below, rfl, h⟩
      cases j with
      | zero =>
        obtain ⟨a', ha, h⟩ := stands_cons.1 h
        cases ha
        exact .inr ⟨(below, b), mem_walk.2 h, rfl⟩
      | succ j =>
        exact .inl ⟨j, below, by rw [Nat.add_right_comm, Nat.add_assoc], stands_tail.1 h⟩

end

mutual

theorem pairwise_walk : ∀ a : Atom, a.walk.Pairwise fun e e' => Earlier e.1 e'.1
  | ⟨type, name, id, truth, attention, outgoing, incoming, metadata⟩ => by
    rw [walk]
    refine .cons (fun e he => ?_) (pairwise_walkOf 0 outgoing)
    obtain ⟨j, below, heq, -⟩ := mem_walkOf.1 he
    rw [heq]
    exact .above

theorem pairwise_walkOf : ∀ (i : ℕ) (members : List (Slot Atom)),
    (walkOf i members).Pairwise fun e e' => Earlier e.1 e'.1
  | i, [] => by
    rw [walkOf]
    exact .nil
  | i, .raw v :: rest => by
    rw [walkOf]
    exact pairwise_walkOf (i + 1) rest
  | i, .known a :: rest => by
    rw [walkOf, List.pairwise_append, List.pairwise_map]
    refine ⟨pairwise_walkOf (i + 1) rest, (pairwise_walk a).imp .within, fun e he e' he' => ?_⟩
    obtain ⟨j, below, heq, -⟩ := mem_walkOf.1 he
    obtain ⟨e', -, rfl⟩ := List.mem_map.1 he'
    rw [heq]
    exact .beside (by omega)

end

/-- A list of the atoms of a forest with their places, each place once, in the order of the places. -/
structure IsTraversal (members : List (Slot Atom)) (visited : List (List ℕ × Atom)) : Prop where
  reached : ∀ place a, (place, a) ∈ visited ↔ Stands members place a
  once : (visited.map (·.1)).Nodup
  ordered : visited.Pairwise fun e e' => Earlier e.1 e'.1

theorem isTraversal_walkOf (members : List (Slot Atom)) : IsTraversal members (walkOf 0 members) where
  reached place a := by
    rw [mem_walkOf]
    constructor
    · rintro ⟨j, below, rfl, h⟩
      rwa [Nat.zero_add]
    · intro h
      obtain ⟨j, below, rfl⟩ := h.exists_cons
      exact ⟨j, below, by rw [Nat.zero_add], h⟩
  once := List.pairwise_map.2 ((pairwise_walkOf 0 members).imp Earlier.ne)
  ordered := pairwise_walkOf 0 members

/-! ## The atoms of the traversal -/

/-- The atoms of a forest in the order of the traversal. -/
def visits (members : List (Slot Atom)) : List Atom := (walkOf 0 members).map (·.2)

theorem map_snd_walkOf (i : ℕ) (members : List (Slot Atom)) :
    (walkOf i members).map (·.2) = visits members := by
  unfold visits
  induction members generalizing i with
  | nil => rw [walkOf, walkOf]
  | cons m rest ih =>
    cases m with
    | known a =>
      rw [walkOf, walkOf, List.map_append, List.map_append, ih (i + 1), ih (0 + 1), List.map_map,
        List.map_map]
      rfl
    | raw v => rw [walkOf, walkOf, ih (i + 1), ih (0 + 1)]

theorem visits_nil : visits [] = [] := by
  unfold visits
  rw [walkOf, List.map_nil]

theorem visits_known : visits (.known a :: rest) = visits rest ++ a :: visits a.outgoing := by
  conv_lhs => unfold visits
  rw [walkOf, walk_eq, List.map_append, map_snd_walkOf, List.map_map, List.map_cons]
  rfl

theorem visits_raw {v : Value} : visits (.raw v :: rest) = visits rest := by
  conv_lhs => unfold visits
  rw [walkOf, map_snd_walkOf]

/-- Later members are visited first. -/
theorem visits_append (members rest : List (Slot Atom)) :
    visits (members ++ rest) = visits rest ++ visits members := by
  induction members with
  | nil => rw [List.nil_append, visits_nil, List.append_nil]
  | cons m members ih =>
    cases m with
    | known a => rw [List.cons_append, visits_known, visits_known, ih, List.append_assoc]
    | raw v => rw [List.cons_append, visits_raw, visits_raw, ih]

/-- On a stack the atom on top is visited first, and what goes out from it next. -/
theorem visits_stack : visits (.known a :: rest).reverse =
    a :: visits (a.outgoing.reverse ++ rest).reverse := by
  rw [List.reverse_cons, visits_append, visits_known, visits_nil, List.reverse_append,
    List.reverse_reverse, visits_append]
  rfl

mutual

theorem length_walk_le : ∀ a : Atom, a.walk.length ≤ a.population
  | ⟨type, name, id, truth, attention, outgoing, incoming, metadata⟩ => by
    have := length_walkOf_le 0 outgoing
    rw [walk, population, List.length_cons]
    omega

theorem length_walkOf_le : ∀ (i : ℕ) (members : List (Slot Atom)),
    (walkOf i members).length ≤ populationOf members
  | i, [] => by rw [walkOf]; exact Nat.zero_le _
  | i, .known a :: rest => by
    have := length_walk_le a
    have := length_walkOf_le (i + 1) rest
    rw [walkOf, populationOf, List.length_append, List.length_map]
    omega
  | i, .raw v :: rest => by
    have := length_walkOf_le (i + 1) rest
    rw [walkOf, populationOf]
    omega

end

theorem length_visits_le (members : List (Slot Atom)) :
    (visits members).length ≤ populationOf members := by
  unfold visits
  rw [List.length_map]
  exact length_walkOf_le 0 members

/-! ## Facts under keys -/

theorem factKey_eq_ok {key : FactKey} :
    a.factKey = .ok key ↔ a.type = .scalar key.1 ∧ a.name = .scalar key.2 := by
  unfold factKey
  constructor
  · intro h
    obtain ⟨type, htype, h⟩ := Except.bind_eq_ok.1 h
    obtain ⟨name, hname, h⟩ := Except.bind_eq_ok.1 h
    cases h
    exact ⟨Value.eq_scalar_of_toKey htype, Value.eq_scalar_of_toKey hname⟩
  · rintro ⟨htype, hname⟩
    rw [htype, hname]
    rfl

/-- Something that facts can be known under a key about. -/
structure Labeled (a : Atom) : Prop where
  type : ∃ k, a.type = .scalar k
  name : a.name.IsTextOrNull

/-- Whether an atom states a fact under a key: it has a truth value and a name, is no rule, and its
type and its name are the same as the key's. -/
def statesUnder (key : FactKey) (a : Atom) : Bool :=
  !a.truth.isEmpty && a.isNamed && !a.isRule &&
    match a.factKey with
    | .ok k => Key.same k key
    | .error _ => false

theorem Labeled.exists_key (h : a.Labeled) : ∃ key, a.factKey = .ok key := by
  obtain ⟨k, htype⟩ := h.type
  obtain ⟨n, hname⟩ := h.name.toKey
  exact ⟨(k, n), factKey_eq_ok.2 ⟨htype, Value.eq_scalar_of_toKey hname⟩⟩

end Atom

/-! ## Gathering facts -/

namespace Facts

open Atom (Labeled visits)

/-- The loop over a stack, with the atoms that it visits. -/
inductive Gathers : List (Slot Atom) → Facts → List Atom → Facts → Prop
  | done {facts : Facts} : Gathers [] facts [] facts
  | visit {a : Atom} {rest : List (Slot Atom)} {facts noted final : Facts} {visited : List Atom}
    (hnote : note facts a = .ok noted)
    (h : Gathers (a.outgoing.reverse ++ rest) noted visited final) :
    Gathers (.known a :: rest) facts (a :: visited) final

variable {facts final : Facts} {stack : List (Slot Atom)} {visited : List Atom} {a : Atom}

/-- The loop comes to its end within as many steps as it visits atoms. -/
theorem Gathers.gather_eq (h : Gathers stack facts visited final) {fuel : ℕ}
    (hfuel : visited.length ≤ fuel) : gather fuel stack facts = .ok final := by
  induction h generalizing fuel with
  | done => cases fuel <;> rfl
  | visit hnote _ ih =>
    obtain ⟨fuel, rfl⟩ := Nat.exists_eq_succ_of_ne_zero (Nat.ne_zero_of_lt hfuel)
    show (note _ _ >>= fun noted => gather fuel _ noted) = _
    rw [hnote, Except.ok_bind, ih (Nat.le_of_succ_le_succ hfuel)]

/-- The loop notes the facts of the atoms of the traversal. -/
theorem gathers_of_notes {P : Atom → Prop}
    (hstack : ∀ m ∈ stack, ∃ a, m = .known a ∧ a.Deep Atom.outgoing P)
    (h : (visits stack.reverse).foldlM note facts = .ok final) :
    Gathers stack facts (visits stack.reverse) final := by
  generalize hvisited : visits stack.reverse = visited at h ⊢
  induction visited generalizing stack facts with
  | nil =>
    cases stack with
    | nil =>
      cases h
      exact .done
    | cons m rest =>
      obtain ⟨a, rfl, -⟩ := hstack m List.mem_cons_self
      rw [Atom.visits_stack] at hvisited
      cases hvisited
  | cons b visited ih =>
    cases stack with
    | nil =>
      rw [List.reverse_nil, Atom.visits_nil] at hvisited
      cases hvisited
    | cons m rest =>
      obtain ⟨a, rfl, ha⟩ := hstack m List.mem_cons_self
      rw [Atom.visits_stack] at hvisited
      obtain ⟨rfl, hrest⟩ := List.cons.inj hvisited
      rw [List.foldlM_cons] at h
      obtain ⟨noted, hnote, h⟩ := Except.bind_eq_ok.1 h
      refine .visit hnote (ih ?_ hrest h)
      intro m hm
      obtain hm | hm := List.mem_append.1 hm
      · exact ha.member (List.mem_reverse.1 hm)
      · exact hstack m (List.mem_cons_of_mem _ hm)

theorem note_exact (ha : a.Labeled) (facts : Facts) : ∃ noted, note facts a = .ok noted ∧
    ∀ key, noted.lookup? key =
      (facts.lookup? key).or (if a.statesUnder key then some a.truth else none) := by
  obtain ⟨k, hk⟩ := ha.exists_key
  unfold note Atom.statesUnder
  rw [hk]
  split
  · rename_i hstates
    refine ⟨facts.putNew k a.truth, rfl, fun key => ?_⟩
    rw [Table.lookup?_putNew, hstates, Bool.true_and]
  · rename_i hsilent
    refine ⟨facts, rfl, fun key => ?_⟩
    rw [Bool.eq_false_iff.2 hsilent, Bool.false_and]
    exact Option.or_none.symm

/-- Of the facts that some atoms state under a key the first is noted. -/
theorem notes_exact (hvisited : ∀ a ∈ visited, a.Labeled) (facts : Facts) :
    ∃ final, visited.foldlM note facts = .ok final ∧ ∀ key, final.lookup? key =
      (facts.lookup? key).or ((visited.find? (Atom.statesUnder key)).map (·.truth)) := by
  induction visited generalizing facts with
  | nil => exact ⟨facts, rfl, fun key => Option.or_none.symm⟩
  | cons a visited ih =>
    rw [List.forall_mem_cons] at hvisited
    obtain ⟨noted, hnote, hnoted⟩ := note_exact hvisited.1 facts
    obtain ⟨final, hfinal, hfound⟩ := ih hvisited.2 noted
    refine ⟨final, by rw [List.foldlM_cons, hnote]; exact hfinal, fun key => ?_⟩
    rw [hfound, hnoted, List.find?_cons, Option.or_assoc]
    cases a.statesUnder key <;> rfl

end Facts

section

open Atom (Labeled Stands visits walkOf)

variable {P : Atom → Prop}

/-- What holds at every depth of some trees holds at every depth of what stands in them. -/
theorem Atom.Stands.deep {members : List (Slot Atom)} {place : List ℕ} {b : Atom}
    (h : Stands members place b) (hmembers : ∀ m ∈ members, ∃ a, m = .known a ∧ a.Deep outgoing P) :
    b.Deep outgoing P := by
  induction h with
  | top h =>
    obtain ⟨a, heq, ha⟩ := hmembers _ (List.mem_of_getElem? h)
    cases heq
    exact ha
  | out h _ ih =>
    obtain ⟨a, heq, ha⟩ := hmembers _ (List.mem_of_getElem? h)
    cases heq
    exact ih fun m hm => ha.member hm

variable {atoms : List Atom} (hatoms : ∀ a ∈ atoms, a.Deep Atom.outgoing Labeled)
include hatoms

/-- The facts that are gathered from a forest are the first of the traversal. -/
theorem knownFacts_visits : ∃ facts, knownFacts atoms = .ok facts ∧
    Facts.Gathers (atoms.map Slot.known).reverse [] (visits (atoms.map .known)) facts ∧
    ∀ key, facts.lookup? key =
      ((visits (atoms.map .known)).find? (Atom.statesUnder key)).map (·.truth) := by
  have hmembers : ∀ m ∈ atoms.map Slot.known, ∃ a, m = .known a ∧ a.Deep Atom.outgoing Labeled := by
    intro m hm
    obtain ⟨a, ha, rfl⟩ := List.mem_map.1 hm
    exact ⟨a, rfl, hatoms a ha⟩
  have hlabeled : ∀ a ∈ visits (atoms.map .known), a.Labeled := by
    intro a ha
    obtain ⟨⟨place, a⟩, hmem, rfl⟩ := List.mem_map.1 ha
    exact (((Atom.isTraversal_walkOf _).reached place a).1 hmem |>.deep hmembers).here
  obtain ⟨facts, hfacts, hfound⟩ := Facts.notes_exact hlabeled []
  have hgathers : Facts.Gathers (atoms.map Slot.known).reverse [] (visits (atoms.map .known)) facts := by
    have hstack : ∀ m ∈ (atoms.map Slot.known).reverse, ∃ a, m = .known a ∧
        a.Deep Atom.outgoing Labeled := fun m hm => hmembers m (List.mem_reverse.1 hm)
    have h := Facts.gathers_of_notes hstack (by rwa [List.reverse_reverse])
    rwa [List.reverse_reverse] at h
  exact ⟨facts, hgathers.gather_eq (Atom.length_visits_le _), hgathers, hfound⟩

/-- **Facts of a forest.** The loop that gathers facts from a forest of atoms with texts or nothing for
names comes to its end. It visits what stands in the forest, each place once: the last tree first, each
atom before what goes out from it, and of that the last first. A key is known exactly if a visited atom
states a fact under it, and what is known is the truth value of the first such atom. -/
theorem knownFacts_exact :
    let members : List (Slot Atom) := atoms.map .known
    Atom.IsTraversal members (walkOf 0 members) ∧
    ∃ facts, knownFacts atoms = .ok facts ∧
      Facts.Gathers members.reverse [] (visits members) facts ∧
      (∀ key, facts.has key = true ↔ ∃ a ∈ visits members, a.statesUnder key = true) ∧
      ∀ key, facts.lookup? key =
        ((visits members).find? (Atom.statesUnder key)).map (·.truth) := by
  obtain ⟨facts, hfacts, hgathers, hfound⟩ := knownFacts_visits hatoms
  refine ⟨Atom.isTraversal_walkOf _, facts, hfacts, hgathers, fun key => ?_, hfound⟩
  rw [Table.has_eq_isSome, hfound, Option.isSome_map, List.isSome_find?, List.any_eq_true]

end

/-- One fact is stated three times; the one that counts is that of the last atom in the last tree. -/
theorem knownFacts_exact_cats :
    let cat (strength : Float) : Atom := ⟨.text "ConceptNode", .text "cat", .null,
      .known ⟨strength, 1⟩, .empty, [], [], []⟩
    let cats : Atom := ⟨.text "ListLink", .null, .null, .empty, .empty,
      [.known (cat 0.5), .known (cat 0.75)], [], []⟩
    (∀ a ∈ [cat 0.25, cats], a.Deep Atom.outgoing Atom.Labeled) ∧
    ∃ facts, knownFacts [cat 0.25, cats] = .ok facts ∧
      facts.lookup? (.text "ConceptNode", .text "cat") = some (.known ⟨0.75, 1⟩) := by
  intro cat cats
  have hcat (strength : Float) : (cat strength).Deep Atom.outgoing Atom.Labeled :=
    .of_members ⟨⟨_, rfl⟩, .inr ⟨_, rfl⟩⟩ nofun
  have hcats : cats.Deep Atom.outgoing Atom.Labeled :=
    .of_members ⟨⟨_, rfl⟩, .inl rfl⟩ (by simp [cats, hcat])
  have hatoms : ∀ a ∈ [cat 0.25, cats], a.Deep Atom.outgoing Atom.Labeled := by
    simp [hcat, hcats]
  obtain ⟨-, facts, hfacts, -, -, hfound⟩ := knownFacts_exact hatoms
  have hvisits : Atom.visits ([cat 0.25, cats].map .known) = [cats, cat 0.75, cat 0.5, cat 0.25] := by
    simp [Atom.visits_known, Atom.visits_nil, cat, cats]
  refine ⟨hatoms, facts, hfacts, ?_⟩
  rw [hfound, hvisits]
  rfl

end KnowledgeGraph
