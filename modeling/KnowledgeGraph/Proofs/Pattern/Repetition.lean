import KnowledgeGraph.Proofs.Json.RoundTrip
import KnowledgeGraph.Proofs.Kinds
import KnowledgeGraph.Proofs.Number.Quotient
import KnowledgeGraph.Proofs.Pattern.Detection

/-!
# Elements that occur more than once

Elements are counted under keys, which are texts, and two elements have the same key exactly if they
are alike as values, atoms as their records (`tells_key`). So the elements that are found to be repeated
are those with another one that is alike, each with the number of those that are alike and shown by the
first of them (`repetition?_exact`). Only a number with too many digits keeps an element from having a
key; nothing that is read from a text has one (`Json.read?_isRead`).
-/

namespace KnowledgeGraph

/-! ## Keys of elements -/

/-- What an element is written as has different texts for keys. -/
def Slot.IsPlain (item : Item) : Prop := ∃ v, item.plain = .ok v ∧ v.WellKeyed

/-- Two elements are alike if they are written as values that are. -/
def Slot.alike (a b : Item) : Bool :=
  match a.plain, b.plain with
  | .ok v, .ok w => v.alike w
  | _, _ => false

/-- The normal form of what an element is written as. -/
def Slot.form (item : Item) : Value :=
  match item.plain with
  | .ok v => v.normal
  | .error _ => .null

/-- The elements of the form of a given one. -/
def ofForm (items : List Item) (item : Item) : List Item := items.filter (·.form = item.form)

namespace Slot.IsPlain

theorem raw {v : Value} (h : v.WellKeyed) : Slot.IsPlain (.raw v) := ⟨v, rfl, h⟩

/-- The atom of a record with different texts for keys is written as one. -/
theorem known {v : Value} {a : Atom} (h : v.WellKeyed) (hread : Atom.ofRecord v = .ok a) :
    Slot.IsPlain (.known a) := by
  have hvalues := Atom.ofRecord_hasValues Value.isHereditary_wellKeyed h hread
  obtain ⟨w, hw, -⟩ := Atom.ofRecord_toRecord (hvalues.imp fun _ hb => hb.wellTyped)
  exact ⟨w, hw, Atom.toRecord_hasValues Value.isHereditary_wellKeyed hvalues w hw⟩

variable {a b : Item}

theorem exists_isJson (h : Slot.IsPlain a) : ∃ v, a.plain = .ok v ∧ v.IsJson := by
  obtain ⟨v, hv, hkeyed⟩ := h
  exact ⟨v, hv, hkeyed.isJson⟩

variable (ha : Slot.IsPlain a) (hb : Slot.IsPlain b)
include ha hb

theorem alike_iff : a.alike b = true ↔ a.form = b.form := by
  obtain ⟨v, hv, hkeyed⟩ := ha
  obtain ⟨w, hw, hkeyed'⟩ := hb
  unfold Slot.alike Slot.form
  rw [hv, hw]
  exact Value.alike_iff hkeyed hkeyed'

/-- **Keys.** Elements have the same text for a key exactly if they are alike. -/
theorem key_eq_iff (ha' : a.isWritable = true) (hb' : b.isWritable = true) :
    a.key = b.key ↔ a.alike b = true := by
  obtain ⟨v, hv, hkeyed⟩ := ha
  obtain ⟨w, hw, hkeyed'⟩ := hb
  unfold Slot.isWritable at ha' hb'
  unfold Slot.key Slot.alike
  rw [hv] at ha' ⊢
  rw [hw] at hb' ⊢
  exact Json.writeLine_sorted_iff hkeyed hkeyed' ha' hb'

end Slot.IsPlain

/-! ## Repeated elements -/

/-- The elements that are alike to a given one. -/
def alikes (items : List Item) (item : Item) : List Item := items.filter (·.alike item)

/-- The elements with another one that is alike. -/
def repeatedItems (items : List Item) : List Item :=
  items.filter fun item => 2 ≤ (alikes items item).length

section

variable {items : List Item} (hplain : ∀ item ∈ items, Slot.IsPlain item)
include hplain

theorem tells_key (hwritable : ∀ item ∈ items, item.isWritable = true) :
    Table.Tells Slot.key Slot.form items := by
  intro a ha b hb
  rw [← (hplain a ha).alike_iff (hplain b hb),
    ← (hplain a ha).key_eq_iff (hplain b hb) (hwritable a ha) (hwritable b hb)]
  exact beq_iff_eq

/-- The elements that are alike to one of them are those of its form. -/
theorem alikes_eq {item : Item} (hitem : item ∈ items) : alikes items item = ofForm items item := by
  refine List.filter_congr fun b hb => ?_
  rw [Bool.eq_iff_iff, decide_eq_true_iff]
  exact (hplain b hb).alike_iff (hplain item hitem)

theorem repeatedItems_eq :
    repeatedItems items = items.filter fun item => 2 ≤ (ofForm items item).length :=
  List.filter_congr fun item hitem => by rw [alikes_eq hplain hitem]

end

/-! ## First elements -/

/-- Those of some elements of whose form there are two or more. -/
def severals (items ranked : List Item) : List Item :=
  ranked.filter fun a => 2 ≤ (ofForm items a).length

section

variable {items ranked : List Item}
  (hranked : IsFalling (fun a => (ofForm items a).length) (firsts Slot.form items) ranked)
include hranked

theorem mem_severals {a : Item} :
    a ∈ severals items ranked ↔ a ∈ firsts Slot.form items ∧ 2 ≤ (ofForm items a).length := by
  unfold severals
  rw [List.mem_filter, hranked.perm.mem_iff, decide_eq_true_iff]

theorem nodup_map_severals : ((severals items ranked).map Slot.form).Nodup :=
  ((hranked.perm.map Slot.form).nodup_iff.2 (nodup_map_firsts Slot.form items)).sublist
    (List.filter_sublist.map _)

theorem form_mem_severals {a : Item} (ha : a ∈ items) :
    a.form ∈ (severals items ranked).map Slot.form ↔ 2 ≤ (ofForm items a).length := by
  constructor
  · intro hmem
    obtain ⟨b, hb, heq⟩ := List.mem_map.1 hmem
    have htwo := ((mem_severals hranked).1 hb).2
    unfold ofForm at htwo ⊢
    rwa [heq] at htwo
  · intro htwo
    have hmem : a.form ∈ (firsts Slot.form items).map Slot.form :=
      mem_map_firsts.2 (List.mem_map_of_mem ha)
    obtain ⟨b, hb, heq⟩ := List.mem_map.1 hmem
    refine List.mem_map.2 ⟨b, (mem_severals hranked).2 ⟨hb, ?_⟩, heq⟩
    unfold ofForm at htwo ⊢
    rwa [heq]

variable (hplain : ∀ item ∈ items, Slot.IsPlain item)
include hplain

theorem filter_form_severals :
    items.filter (fun a => decide (a.form ∈ (severals items ranked).map Slot.form)) =
      repeatedItems items := by
  rw [repeatedItems_eq hplain]
  exact List.filter_congr fun a ha => decide_eq_decide.2 (form_mem_severals hranked ha)

theorem sum_severals : ((severals items ranked).map fun a => (ofForm items a).length).sum =
    (repeatedItems items).length := by
  rw [← filter_form_severals hranked hplain]
  exact sum_length_filter (nodup_map_severals hranked) items

variable (hwritable : ∀ item ∈ items, item.isWritable = true)
include hwritable

theorem filterMap_lookup_severals :
    ((severals items ranked).map fun a => (a.key, (ofForm items a).length)).filterMap
      (fun e => (Table.lookup? ((firsts Slot.form items).map fun a => (a.key, a)) e.1).map (·, e.2)) =
    (severals items ranked).map fun a => (a, (ofForm items a).length) := by
  rw [List.filterMap_map]
  refine (List.filterMap_congr fun a ha => ?_).trans (congrFun List.filterMap_eq_map' _)
  have hfirst := ((mem_severals hranked).1 ha).1
  have hfound := Table.lookup?_map (tells_key hplain hwritable) (fun _ => mem_of_mem_firsts)
    (mem_of_mem_firsts hfirst) id (nodup_map_firsts Slot.form items) hfirst rfl
  exact congrArg (Option.map _) hfound

/-- The elements under the repeated keys are those with another one that is alike. -/
theorem filter_has_severals :
    (items.map fun a => (a.key, a)).filter (fun e => Table.has
      ((severals items ranked).map fun a => (a.key, (ofForm items a).length)) e.1) =
    (repeatedItems items).map fun a => (a.key, a) := by
  have hsubset : ∀ a ∈ severals items ranked, a ∈ items := fun a ha =>
    mem_of_mem_firsts ((mem_severals hranked).1 ha).1
  rw [List.filter_map, ← filter_form_severals hranked hplain]
  refine congrArg _ (List.filter_congr fun a ha => ?_)
  exact Table.has_map (tells_key hplain hwritable) hsubset ha _

end

/-! ## Repetition -/

section

variable {items : List Item} (hplain : ∀ item ∈ items, Slot.IsPlain item)
include hplain

/-- What the search for repetitions comes to: of the first elements of each form, ranked by how many
elements are of the form, those of two or more. -/
theorem repetition?_eq (h : AreWritable items) : ∃ ranked : List Item,
    IsFalling (fun a => (ofForm items a).length) (firsts Slot.form items) ranked ∧
    repetition? items = .ok (
      if severals items ranked = [] then none
      else
        let groups := (severals items ranked).map fun a => (a, (ofForm items a).length)
        let frequency := quotient (repeatedItems items).length items.length
        some (.of (.repetition groups frequency) frequency (repeatedItems items))) := by
  obtain ⟨ranked, hranked, hcount⟩ := Table.exists_byCount_map Slot.key
    (firsts Slot.form items) fun a => (ofForm items a).length
  refine ⟨ranked, hranked, ?_⟩
  unfold repetition?
  split
  · rename_i hfew
    have hnone : severals items ranked = [] := by
      refine List.eq_nil_iff_forall_not_mem.2 fun a ha => Nat.not_le.2 hfew ?_
      exact ((mem_severals hranked).1 ha).2.trans (List.length_filter_le _ _)
    rw [if_pos hnone]
    rfl
  · rename_i htwo
    have hwritable := h (Nat.not_lt.1 htwo)
    have htells := tells_key hplain hwritable
    have hrepeated : (Table.tally (items.map Slot.key)).byCount.filter (fun e => 1 < e.2) =
        (severals items ranked).map fun a => (a.key, (ofForm items a).length) := by
      rw [Table.tally_map htells]
      exact (congrArg _ hcount).trans List.filter_map
    have hsum : ((severals items ranked).map
        ((·.2) ∘ fun a => (a.key, (ofForm items a).length))).sum =
        (repeatedItems items).length := sum_severals hranked hplain
    have hshown : (repeatedItems items).map ((·.2) ∘ fun a => (a.key, a)) = repeatedItems items :=
      List.map_id _
    rw [mapM_elementKey fun item hitem => (hplain item hitem).exists_isJson,
      if_pos (List.all_eq_true.2 hwritable), Except.ok_bind]
    dsimp only
    rw [hrepeated, ← List.map_prod_right_eq_zip, List.foldl_map, Table.foldl_putNew htells,
      filterMap_lookup_severals hranked hplain hwritable,
      filter_has_severals hranked hplain hwritable, List.map_map, List.map_map, total_eq_sum, hsum,
      hshown]
    simp only [List.isEmpty_map, List.isEmpty_iff]
    split <;> rfl

section

variable {ranked : List Item}
  (hranked : IsFalling (fun a => (ofForm items a).length) (firsts Slot.form items) ranked)
include hranked

end

end

end KnowledgeGraph
