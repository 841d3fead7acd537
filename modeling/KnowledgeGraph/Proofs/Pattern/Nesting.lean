import KnowledgeGraph.Proofs.Number.Exact
import KnowledgeGraph.Proofs.Pattern.Detection
import Mathlib.Order.Bounds.Defs

/-!
# Containers within containers

A chain of containers starts with one of some elements, and each other container of it is held by the
one before (`IsNest`). The depth of the elements is the length of the longest chain
(`isGreatest_depth`), and a hierarchy is found by default if there is a chain of three containers,
the whole list included (`hierarchy?_exact`).
-/

namespace KnowledgeGraph

/-! ## Chains -/

/-- What an element holds: a list its items, a map its values, and an atom what goes out from it. -/
def Slot.held : Item → List Item
  | .known a => a.outgoing
  | .raw (.list items) => items.map .raw
  | .raw (.map es) => es.map fun e => .raw e.2
  | .raw (.scalar _) => []

/-- An element that is made to hold others: a list, a map or an atom. -/
def Slot.IsContainer : Item → Prop
  | .raw (.scalar _) => False
  | _ => True

/-- A chain of containers, of which the first is among some elements, and each other one is held by
the one before. -/
inductive IsNest : List Item → List Item → Prop
  | nil (elements : List Item) : IsNest elements []
  | cons {elements chain : List Item} {c : Item} (mem : c ∈ elements) (container : c.IsContainer)
    (rest : IsNest c.held chain) : IsNest elements (c :: chain)

/-- The lengths of the chains of containers that start with a list of elements itself. -/
def nestings (elements : List Item) : Set ℕ := {n | ∃ chain, IsNest elements chain ∧ n = 1 + chain.length}

/-! ## Depth -/

theorem depthOfMembers_raw (items : List Value) :
    Atom.depthOfMembers (items.map .raw) = Value.depthOfItems items := by
  induction items with
  | nil => rw [List.map_nil, Atom.depthOfMembers, Value.depthOfItems]
  | cons v vs ih => rw [List.map_cons, Atom.depthOfMembers, Value.depthOfItems, ih]

theorem depthOfMembers_values (es : Entries) :
    Atom.depthOfMembers (es.map fun e => .raw e.2) = Value.depthOfEntries es := by
  induction es with
  | nil => rw [List.map_nil, Atom.depthOfMembers, Value.depthOfEntries]
  | cons e es ih => rw [List.map_cons, Atom.depthOfMembers, Value.depthOfEntries, ih]

theorem depthOfMembers_cons (c : Item) (rest : List Item) :
    Atom.depthOfMembers (c :: rest) = max c.depth (Atom.depthOfMembers rest) := by
  cases c with
  | known a => rw [Atom.depthOfMembers, Slot.depth]
  | raw v => rw [Atom.depthOfMembers, Slot.depth]

theorem Slot.IsContainer.depth_eq {c : Item} (h : c.IsContainer) :
    c.depth = 1 + Atom.depthOfMembers c.held := by
  cases c with
  | known a =>
    cases a
    rw [Slot.depth, Atom.depth, Slot.held]
  | raw v =>
    cases v with
    | scalar s => exact h.elim
    | list items => rw [Slot.depth, Value.depth, Slot.held, depthOfMembers_raw]
    | map es => rw [Slot.depth, Value.depth, Slot.held, depthOfMembers_values]

theorem Slot.isContainer_of_depth {c : Item} (h : 0 < c.depth) : c.IsContainer := by
  cases c with
  | known a => trivial
  | raw v =>
    cases v with
    | scalar s =>
      rw [Slot.depth, Value.depth] at h
      cases h
    | list items | map es => trivial

theorem depth_le_of_mem {elements : List Item} {c : Item} (h : c ∈ elements) :
    c.depth ≤ Atom.depthOfMembers elements := by
  induction elements with
  | nil => cases h
  | cons d rest ih =>
    rw [depthOfMembers_cons]
    obtain rfl | h := List.mem_cons.1 h
    · exact le_max_left _ _
    · exact (ih h).trans (le_max_right _ _)

theorem exists_depth_eq {elements : List Item} (h : 0 < Atom.depthOfMembers elements) :
    ∃ c ∈ elements, c.depth = Atom.depthOfMembers elements := by
  induction elements with
  | nil =>
    rw [Atom.depthOfMembers] at h
    cases h
  | cons d rest ih =>
    rw [depthOfMembers_cons] at h ⊢
    obtain hle | hlt := le_or_gt (Atom.depthOfMembers rest) d.depth
    · exact ⟨d, List.mem_cons_self, (max_eq_left hle).symm⟩
    · obtain ⟨c, hc, heq⟩ := ih (Nat.zero_lt_of_lt hlt)
      exact ⟨c, List.mem_cons_of_mem _ hc, heq.trans (max_eq_right hlt.le).symm⟩

theorem IsNest.length_le {elements chain : List Item} (h : IsNest elements chain) :
    chain.length ≤ Atom.depthOfMembers elements := by
  induction h with
  | nil elements => exact Nat.zero_le _
  | @cons elements chain c mem container _ ih =>
    calc (c :: chain).length ≤ 1 + Atom.depthOfMembers c.held := by
          rw [List.length_cons]
          omega
      _ = c.depth := container.depth_eq.symm
      _ ≤ Atom.depthOfMembers elements := depth_le_of_mem mem

/-- A chain goes on through the deepest containers. -/
theorem exists_nest (elements : List Item) :
    ∃ chain, IsNest elements chain ∧ chain.length = Atom.depthOfMembers elements := by
  generalize hdepth : Atom.depthOfMembers elements = depth
  induction depth generalizing elements with
  | zero => exact ⟨[], .nil elements, rfl⟩
  | succ depth ih =>
    have hpos : 0 < Atom.depthOfMembers elements := by omega
    obtain ⟨c, hc, heq⟩ := exists_depth_eq hpos
    have hcontainer : c.IsContainer := Slot.isContainer_of_depth (by omega)
    have hheld := hcontainer.depth_eq
    obtain ⟨chain, hchain, hlength⟩ := ih c.held (by omega)
    exact ⟨c :: chain, .cons hc hcontainer hchain, by rw [List.length_cons, hlength]⟩

/-- **Depth.** The depth of a list is the length of the longest chain of containers from it. -/
theorem isGreatest_depth (elements : List Item) :
    IsGreatest (nestings elements) (1 + Atom.depthOfMembers elements) := by
  obtain ⟨chain, hchain, hlength⟩ := exists_nest elements
  refine ⟨⟨chain, hchain, by rw [hlength]⟩, ?_⟩
  rintro n ⟨chain, hchain, rfl⟩
  exact Nat.add_le_add_left hchain.length_le 1

/-! ## Hierarchies -/

/-- A hierarchy: its depth is the length of the longest chain of containers, which are three or more,
and its instances are the elements that hold containers. -/
structure IsHierarchy (elements : List Item) (p : Pattern) (depth : ℕ) : Prop where
  shape : p.shape = .hierarchy depth
  longest : IsGreatest (nestings elements) depth
  three : 3 ≤ depth
  instances : p.instances = elements.filter fun item => 2 ≤ item.depth
  nonempty : p.instances ≠ []
  confidence : InUnit p.confidence

theorem hierarchy?_default (elements : List Item) :
    hierarchy? {} elements = .ok (
      if 1 + Atom.depthOfMembers elements < 3 then none
      else
        let depth := 1 + Atom.depthOfMembers elements
        some (.of (.hierarchy depth) (least 1 (0.5 + 0.1 * depth.toFloat))
          (elements.filter fun item => 2 ≤ item.depth))) := by
  have hlimit : ({} : DetectionConfig).hierarchyDepth.quantity = .ok (.int 3) := rfl
  have hless (depth : ℕ) : (Quantity.int depth).less (.int 3) = decide (depth < 3) := by
    have hfinite (n : ℤ) : (Quantity.int n).IsFinite := trivial
    rw [Bool.eq_iff_iff, Quantity.less_iff (hfinite _) (hfinite _), decide_eq_true_iff]
    show ((depth : ℤ) : ℚ) < ((3 : ℤ) : ℚ) ↔ _
    exact_mod_cast Iff.rfl
  unfold hierarchy?
  rw [hlimit, Except.ok_bind, hless]
  by_cases hflat : 1 + Atom.depthOfMembers elements < 3
  · rw [if_pos hflat, decide_eq_true hflat]
    rfl
  · rw [if_neg hflat, decide_eq_false hflat]
    rfl

/-- **Hierarchies.** By default a hierarchy is found if there is a chain of three containers or more,
the whole list included. -/
theorem hierarchy?_exact (elements : List Item) : ∃ found, hierarchy? {} elements = .ok found ∧
    (found.isSome = true ↔ ∃ n ∈ nestings elements, 3 ≤ n) ∧
    ∀ p ∈ found, ∃ depth, IsHierarchy elements p depth := by
  have hgreatest := isGreatest_depth elements
  refine ⟨_, hierarchy?_default elements, ?_⟩
  split
  · rename_i hflat
    refine ⟨iff_of_false Bool.false_ne_true ?_, nofun⟩
    rintro ⟨n, hn, hthree⟩
    exact absurd (hthree.trans (hgreatest.2 hn)) (Nat.not_le.2 hflat)
  · rename_i hdeep
    refine ⟨iff_of_true rfl ⟨_, hgreatest.1, not_lt.1 hdeep⟩, fun p hp => ?_⟩
    obtain rfl := Option.some.inj hp
    have hpos : 0 < Atom.depthOfMembers elements := by omega
    obtain ⟨c, hc, heq⟩ := exists_depth_eq hpos
    have hheld : c ∈ elements.filter fun item => 2 ≤ item.depth :=
      List.mem_filter.2 ⟨hc, decide_eq_true (by omega)⟩
    exact ⟨_,
      { shape := rfl
        longest := hgreatest
        three := not_lt.1 hdeep
        instances := rfl
        nonempty := List.ne_nil_of_mem hheld
        confidence := inUnit_confidenceOf _ }⟩

end KnowledgeGraph
