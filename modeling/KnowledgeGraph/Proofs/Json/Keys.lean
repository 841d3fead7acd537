import KnowledgeGraph.Proofs.Except
import KnowledgeGraph.Proofs.Table
import KnowledgeGraph.Proofs.Value.Writable
import KnowledgeGraph.Value.Canonical

/-!
# Values with texts for keys

Where all maps in a value have texts for keys, at every depth, the keys of any of them can be sorted. Then
it is only a number with too many digits that keeps the value from having a canonical form
(`canonical_eq`).
-/

namespace KnowledgeGraph

/-! ## Values with texts for keys -/

/-- All maps in a value have texts for keys, at every depth. -/
inductive Value.IsJson : Value → Prop
  | scalar (s : Scalar) : IsJson (.scalar s)
  | list {items : List Value} (items_isJson : ∀ v ∈ items, IsJson v) : IsJson (.list items)
  | map {es : Entries} (keys : Table.TextKeys es) (values : ∀ e ∈ es, IsJson e.2) : IsJson (.map es)

namespace Value.IsJson

variable {es : Entries} {items : List Value}

theorem textKeys (h : (Value.map es).IsJson) : Table.TextKeys es := by
  cases h with
  | map keys _ => exact keys

theorem value (h : (Value.map es).IsJson) {e : Scalar × Value} (he : e ∈ es) : e.2.IsJson := by
  cases h with
  | map _ values => exact values e he

theorem item (h : (Value.list items).IsJson) {v : Value} (hv : v ∈ items) : v.IsJson := by
  cases h with
  | list items_isJson => exact items_isJson v hv

theorem get? (h : (Value.map es).IsJson) {name : String} {v : Value}
    (hv : Entries.get? es name = some v) : v.IsJson :=
  h.value (Table.mem_of_lookup? (Key.sharp_text name) hv)

theorem record {fields : List (String × Value)} (h : ∀ f ∈ fields, f.2.IsJson) :
    (Value.record fields).IsJson := by
  unfold Value.record Entries.ofFields
  refine .map ?_ ?_
  · intro e he
    obtain ⟨f, -, rfl⟩ := List.mem_map.1 he
    exact ⟨f.1, rfl⟩
  · intro e he
    obtain ⟨f, hf, rfl⟩ := List.mem_map.1 he
    exact h f hf

end Value.IsJson

/-! ## Properties of values and their parts -/

/-- A property that values have in common with their parts: what has it passes it on to its items and
to the values under named keys, and what is made of values that have it has it too. Scalars have it
that can be written. -/
structure Value.IsHereditary (P : Value → Prop) : Prop where
  scalar {s : Scalar} (h : s.isWritable = true) : P (.scalar s)
  list {items : List Value} (h : ∀ v ∈ items, P v) : P (.list items)
  record {fields : List (String × Value)} (nodup : (fields.map (·.1)).Nodup)
    (h : ∀ f ∈ fields, P f.2) : P (.record fields)
  item {items : List Value} (h : P (.list items)) {v : Value} (hv : v ∈ items) : P v
  get? {es : Entries} (h : P (.map es)) {name : String} {v : Value}
    (hv : Entries.get? es name = some v) : P v

theorem Value.IsHereditary.getD {P : Value → Prop} (hP : IsHereditary P) {es : Entries}
    (h : P (.map es)) (name : String) : P ((Entries.get? es name).getD .null) := by
  cases hv : Entries.get? es name with
  | none => exact hP.scalar rfl
  | some v => exact hP.get? h hv

theorem Value.isHereditary_isJson : IsHereditary IsJson where
  scalar _ := .scalar _
  list := .list
  record _ := .record
  item := .item
  get? := .get?

theorem Value.isHereditary_isWritable : IsHereditary (·.isWritable = true) where
  scalar h := h
  list h := by rwa [isWritable_list, List.all_eq_true]
  record _ h := by
    unfold record Entries.ofFields
    rw [isWritable_map, List.all_map, List.all_eq_true]
    exact fun f hf => h f hf
  item h := by
    rw [isWritable_list, List.all_eq_true] at h
    exact h _
  get? h _ _ hv := by
    rw [isWritable_map, List.all_eq_true] at h
    have hentry := h _ (Table.mem_of_lookup? (Key.sharp_text _) hv)
    exact ((Bool.and_eq_true _ _).mp hentry).2

/-! ## Sorting keys -/

theorem sortByKey_eq_of_text {α : Type} {key : α → Scalar} {xs : List α}
    (h : ∀ x ∈ xs, ∃ s, key x = .text s) :
    sortByKey key xs = .ok (xs.mergeSort fun a b => (key a).textLE (key b)) := by
  unfold sortByKey
  split
  · rename_i hshort
    obtain _ | ⟨x, _ | ⟨y, rest⟩⟩ := xs
    · rw [List.mergeSort_nil]
    · rw [List.mergeSort_singleton]
    · simp at hshort
  · have hall : xs.all (fun x => (key x).text?.isSome) = true := by
      refine List.all_eq_true.2 fun x hx => ?_
      obtain ⟨s, hs⟩ := h x hx
      rw [hs]
      rfl
    rw [if_pos hall]

theorem sortByKey_of_text {α : Type} {key : α → Scalar} {xs : List α}
    (h : ∀ x ∈ xs, ∃ s, key x = .text s) : Except.Returns (sortByKey key xs) :=
  ⟨_, sortByKey_eq_of_text h⟩

/-! ## Canonical forms -/

namespace Value

mutual

/-- A value with the keys of its maps sorted, which are texts. -/
def sorted : Value → Value
  | .scalar s => .scalar s
  | .list items => .list (sortedItems items)
  | .map es => .map ((sortedEntries es).mergeSort fun a b => a.1.textLE b.1)

/-- Items with the keys of the maps in them sorted. -/
def sortedItems : List Value → List Value
  | [] => []
  | v :: vs => sorted v :: sortedItems vs

/-- Entries with the keys of the maps in their values sorted. -/
def sortedEntries : List (Scalar × Value) → List (Scalar × Value)
  | [] => []
  | (k, v) :: es => (k, sorted v) :: sortedEntries es

end

theorem sortedItems_eq_map (items : List Value) : sortedItems items = items.map sorted := by
  induction items with
  | nil => rw [sortedItems, List.map_nil]
  | cons v vs ih => rw [sortedItems, List.map_cons, ih]

theorem sortedEntries_eq_map (es : Entries) : sortedEntries es = es.map fun e => (e.1, e.2.sorted) := by
  induction es with
  | nil => rw [sortedEntries, List.map_nil]
  | cons e es ih => rw [sortedEntries, List.map_cons, ih]

/-- To sort entries by their keys it does not matter what stands under the keys. -/
theorem mergeSort_map_values {α β : Type} (f : α → β) (es : List (Scalar × α)) :
    (es.map fun e => (e.1, f e.2)).mergeSort (fun a b => a.1.textLE b.1) =
      (es.mergeSort fun a b => a.1.textLE b.1).map fun e => (e.1, f e.2) :=
  (List.map_mergeSort (f := fun e : Scalar × α => (e.1, f e.2)) fun _ _ _ _ => rfl).symm

theorem canonicalItems_eq_mapM (items : List Value) :
    canonicalItems items = items.mapM canonical := by
  induction items with
  | nil =>
    rw [canonicalItems]
    rfl
  | cons v vs ih => rw [canonicalItems, List.mapM_cons, ih]

theorem canonicalEntries_eq_map (es : Entries) :
    canonicalEntries es = es.map fun e => (e.1, e.2.canonical) := by
  induction es with
  | nil => rw [canonicalEntries, List.map_nil]
  | cons e es ih => rw [canonicalEntries, List.map_cons, ih]

/-- **Canonical forms.** A value with texts for keys has a canonical form if it can be written, and it is
the value with its keys sorted. -/
theorem canonical_eq {v : Value} (h : v.IsJson) :
    v.canonical = if v.isWritable then .ok v.sorted else .error .tooManyDigits := by
  induction h with
  | scalar s => rw [canonical, isWritable, sorted]
  | @list items _ ih =>
    rw [canonical, canonicalItems_eq_mapM, Except.mapM_of_ite ih, isWritable_list, sorted,
      sortedItems_eq_map]
    split <;> rfl
  | @map es keys _ ih =>
    have htext : ∀ c ∈ es.map fun e => (e.1, e.2.canonical), ∃ s, c.1 = .text s :=
      List.forall_mem_map.2 keys
    let ordered := es.mergeSort fun a b => a.1.textLE b.1
    have hmem : ∀ {e}, e ∈ ordered → e ∈ es := List.mem_mergeSort.1
    have hentry : ∀ e ∈ ordered, (do return (← e.1.toName, ← e.2.canonical)) =
        if e.1.isWritable && e.2.isWritable then .ok (e.1, e.2.sorted)
        else .error .tooManyDigits := by
      intro e he
      obtain ⟨s, hs⟩ := keys e (hmem he)
      rw [hs, ih e (hmem he)]
      cases e.2.isWritable <;> rfl
    have hall : (es.all fun e => e.1.isWritable && e.2.isWritable) =
        ordered.all fun e => e.1.isWritable && e.2.isWritable :=
      ((List.mergeSort_perm _ _).all_eq).symm
    rw [canonical, canonicalEntries_eq_map, sortByKey_eq_of_text htext, Except.ok_bind,
      mergeSort_map_values, List.mapM_map, sorted, sortedEntries_eq_map, mergeSort_map_values,
      isWritable_map, hall]
    have hentries : ordered.mapM _ = _ := Except.mapM_of_ite hentry
    refine (congrArg (· >>= _) hentries).trans ?_
    split <;> rfl

end Value

end KnowledgeGraph
