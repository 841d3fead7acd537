import KnowledgeGraph.Proofs.Json.Keys
import KnowledgeGraph.Proofs.Sorting
import KnowledgeGraph.Proofs.Value
import Mathlib.Data.String.Basic

/-!
# Values that are alike

Values are alike if they differ in the order of keys only (`Value.alike`): the kinds of numbers are
told apart, and not-a-numbers are all the same. A value has one normal form (`Value.normal`), which is
what the value with its keys sorted is read as (`asRead_sorted`), and values with different texts for
keys are alike exactly if their normal forms are equal (`alike_iff`).
-/

namespace KnowledgeGraph

namespace Value

/-! ## Equality up to the order of keys -/

mutual

/-- Equality of values: scalars of one kind by what is written for them, lists item by item, and maps
by their keys in any order. -/
def alike : Value → Value → Bool
  | .scalar a, .scalar b => a.asRead = b.asRead
  | .list vs, .list ws => alikeItems vs ws
  | .map es, .map fs => es.length == fs.length && alikeEntries es fs
  | _, _ => false

def alikeItems : List Value → List Value → Bool
  | [], [] => true
  | v :: vs, w :: ws => alike v w && alikeItems vs ws
  | _, _ => false

/-- Whether each entry has its counterpart in the second map. -/
def alikeEntries : List (Scalar × Value) → List (Scalar × Value) → Bool
  | [], _ => true
  | (k, v) :: es, fs =>
    (match Table.lookup? fs k with
      | some w => alike v w
      | none => false) && alikeEntries es fs

end

/-- All maps in a value have different texts for keys, at every depth. -/
inductive WellKeyed : Value → Prop
  | scalar (s : Scalar) : WellKeyed (.scalar s)
  | list {items : List Value} (items_wellKeyed : ∀ v ∈ items, WellKeyed v) :
    WellKeyed (.list items)
  | map {es : Entries} (keys : Table.TextKeys es) (nodup : (Table.keys es).Nodup)
    (values : ∀ e ∈ es, WellKeyed e.2) : WellKeyed (.map es)

theorem WellKeyed.isJson {v : Value} (h : v.WellKeyed) : v.IsJson := by
  induction h with
  | scalar s => exact .scalar s
  | list _ ih => exact .list ih
  | map keys _ _ ih => exact .map keys ih

theorem WellKeyed.record {fields : List (String × Value)} (hnodup : (fields.map (·.1)).Nodup)
    (h : ∀ f ∈ fields, f.2.WellKeyed) : (Value.record fields).WellKeyed := by
  unfold Value.record Entries.ofFields
  refine .map (List.forall_mem_map.2 fun f _ => ⟨f.1, rfl⟩) ?_ (List.forall_mem_map.2 h)
  have hkeys : Table.keys (fields.map fun f => (Scalar.text f.1, f.2)) =
      (fields.map (·.1)).map Scalar.text := by
    unfold Table.keys
    rw [List.map_map, List.map_map]
    rfl
  exact hkeys ▸ hnodup.map fun _ _ => Scalar.text.inj

theorem isHereditary_wellKeyed : IsHereditary WellKeyed where
  scalar _ := .scalar _
  list := .list
  record := .record
  item h := by
    cases h with
    | list items_wellKeyed => exact items_wellKeyed _
  get? h _ _ hv := by
    cases h with
    | map _ _ values => exact values _ (Table.mem_of_lookup? (Key.sharp_text _) hv)

/-! ## Normal forms -/

mutual

/-- A value with the keys of its maps sorted, as it is read again. -/
def normal : Value → Value
  | .scalar s => .scalar s.asRead
  | .list items => .list (normalItems items)
  | .map es => .map ((normalEntries es).mergeSort fun a b => a.1.textLE b.1)

def normalItems : List Value → List Value
  | [] => []
  | v :: vs => normal v :: normalItems vs

/-- Entries with the normal forms of their values. -/
def normalEntries : List (Scalar × Value) → List (Scalar × Value)
  | [] => []
  | (k, v) :: es => (k, normal v) :: normalEntries es

end

theorem normalEntries_eq_map (es : Entries) :
    normalEntries es = es.map fun e => (e.1, e.2.normal) := by
  induction es with
  | nil => rw [normalEntries, List.map_nil]
  | cons e es ih => rw [normalEntries, List.map_cons, ih]

/-! ## Sorted values -/

mutual

/-- The normal form is what a value is read as once its keys are sorted. -/
theorem asRead_sorted : ∀ v : Value, v.sorted.asRead = v.normal
  | .scalar s => by rw [sorted, asRead, normal]
  | .list items => by rw [sorted, asRead_list, normal, asReadItems_sorted items]
  | .map es => by
    rw [sorted, asRead_map, normal, asReadEntries_eq_map, ← mergeSort_map_values,
      ← asReadEntries_eq_map, asReadEntries_sorted es]

theorem asReadItems_sorted : ∀ vs : List Value, asReadItems (sortedItems vs) = normalItems vs
  | [] => by rw [sortedItems, asReadItems, normalItems]
  | v :: vs => by
    rw [sortedItems, asReadItems, normalItems, asRead_sorted v, asReadItems_sorted vs]

theorem asReadEntries_sorted : ∀ es : List (Scalar × Value),
    asReadEntries (sortedEntries es) = normalEntries es
  | [] => by rw [sortedEntries, asReadEntries, normalEntries]
  | (k, v) :: es => by
    rw [sortedEntries, asReadEntries, normalEntries, asRead_sorted v, asReadEntries_sorted es]

end

theorem WellKeyed.sorted {v : Value} (h : v.WellKeyed) : v.sorted.WellKeyed := by
  induction h with
  | scalar s => exact Value.sorted.eq_1 s ▸ .scalar s
  | list _ ih =>
    rw [Value.sorted, sortedItems_eq_map]
    exact .list (List.forall_mem_map.2 ih)
  | @map es keys nodup _ ih =>
    rw [Value.sorted, sortedEntries_eq_map, mergeSort_map_values]
    have hperm : (es.mergeSort fun a b => a.1.textLE b.1).Perm es := List.mergeSort_perm _ _
    refine .map (List.forall_mem_map.2 fun e he => keys e (hperm.mem_iff.1 he)) ?_
      (List.forall_mem_map.2 fun e he => ih e (hperm.mem_iff.1 he))
    unfold Table.keys at nodup ⊢
    rw [List.map_map]
    exact ((hperm.map (·.1)).nodup_iff).2 nodup

mutual

theorem isWritable_sorted : ∀ v : Value, v.sorted.isWritable = v.isWritable
  | .scalar s => by rw [sorted]
  | .list items => by rw [sorted, isWritable_list, all_isWritable_sortedItems, isWritable_list]
  | .map es => by
    rw [sorted, isWritable_map, (List.mergeSort_perm _ _).all_eq, all_isWritable_sortedEntries,
      isWritable_map]

theorem all_isWritable_sortedItems : ∀ vs : List Value,
    (sortedItems vs).all isWritable = vs.all isWritable
  | [] => by rw [sortedItems]
  | v :: vs => by
    rw [sortedItems, List.all_cons, List.all_cons, isWritable_sorted v,
      all_isWritable_sortedItems vs]

theorem all_isWritable_sortedEntries : ∀ es : List (Scalar × Value),
    ((sortedEntries es).all fun e => e.1.isWritable && e.2.isWritable) =
      es.all fun e => e.1.isWritable && e.2.isWritable
  | [] => by rw [sortedEntries]
  | (k, v) :: es => by
    rw [sortedEntries, List.all_cons, List.all_cons, isWritable_sorted v,
      all_isWritable_sortedEntries es]

end

/-! ## Alike values -/

/-- Entries with different texts for keys are sorted to the same list in any order. -/
theorem mergeSort_eq_iff {es fs : Entries} (hkeys : Table.TextKeys es)
    (hnodup : (Table.keys es).Nodup) (hkeys' : Table.TextKeys fs) :
    (es.mergeSort fun a b => a.1.textLE b.1) = (fs.mergeSort fun a b => a.1.textLE b.1) ↔
      es.Perm fs := by
  have hsort {es : Entries} (hkeys : Table.TextKeys es) :
      IsFalling (fun e => OrderDual.toDual ((e.1.text?).getD "")) es
        (es.mergeSort fun a b => a.1.textLE b.1) := by
    refine isFalling_mergeSort fun e he f hf => ?_
    obtain ⟨s, hs⟩ := hkeys e he
    obtain ⟨t, ht⟩ := hkeys f hf
    rw [hs, ht, Bool.eq_iff_iff, decide_eq_true_iff, OrderDual.toDual_le_toDual]
    show (!decide (t < s)) = true ↔ s ≤ t
    rw [Bool.not_eq_true', decide_eq_false_iff_not, not_lt]
  refine ⟨fun h => ?_, fun h => ?_⟩
  · exact (hsort hkeys).perm.symm.trans (h ▸ (hsort hkeys').perm)
  · have hperm := ((hsort hkeys).perm.trans h).trans (hsort hkeys').perm.symm
    refine hperm.eq_of_pairwise (fun e f he hf hef hfe => ?_) (hsort hkeys).falling
      (hsort hkeys').falling
    have he := (hsort hkeys).perm.mem_iff.1 he
    have hf := h.mem_iff.2 ((hsort hkeys').perm.mem_iff.1 hf)
    obtain ⟨s, hs⟩ := hkeys e he
    obtain ⟨t, ht⟩ := hkeys f hf
    have heq : e.1 = f.1 := by
      rw [hs, ht] at hef hfe ⊢
      exact congrArg Scalar.text (le_antisymm hef hfe)
    exact List.inj_on_of_nodup_map hnodup he hf heq

theorem alikeItems_iff {vs ws : List Value}
    (h : ∀ v ∈ vs, ∀ w ∈ ws, v.alike w = true ↔ v.normal = w.normal) :
    alikeItems vs ws = true ↔ normalItems vs = normalItems ws := by
  induction vs generalizing ws with
  | nil => cases ws <;> simp [alikeItems, normalItems]
  | cons v vs ih =>
    cases ws with
    | nil => simp [alikeItems, normalItems]
    | cons w ws =>
      rw [alikeItems, normalItems, normalItems, Bool.and_eq_true, List.cons.injEq,
        h v List.mem_cons_self w List.mem_cons_self]
      refine and_congr_right fun _ => ih fun v hv w hw => ?_
      exact h v (List.mem_cons_of_mem _ hv) w (List.mem_cons_of_mem _ hw)

theorem alikeEntries_iff {es fs : Entries} (hkeys : Table.TextKeys fs)
    (hnodup : (Table.keys fs).Nodup)
    (h : ∀ e ∈ es, ∀ f ∈ fs, e.2.alike f.2 = true ↔ e.2.normal = f.2.normal) :
    alikeEntries es fs = true ↔ normalEntries es ⊆ normalEntries fs := by
  induction es with
  | nil => simp [alikeEntries, normalEntries]
  | cons e es ih =>
    obtain ⟨k, v⟩ := e
    rw [List.forall_mem_cons] at h
    rw [alikeEntries, normalEntries, Bool.and_eq_true, List.cons_subset, ih h.2]
    refine and_congr_left fun _ => ?_
    rw [normalEntries_eq_map, List.mem_map]
    constructor
    · intro halike
      cases hfound : Table.lookup? fs k with
      | none =>
        rw [hfound] at halike
        cases halike
      | some w =>
        rw [hfound] at halike
        obtain ⟨hmem, -⟩ := hkeys.mem_of_lookup? hfound
        exact ⟨(k, w), hmem, by rw [(h.1 (k, w) hmem).1 halike]⟩
    · rintro ⟨f, hf, heq⟩
      obtain ⟨hkey, hnormal⟩ := Prod.mk.inj heq
      have hsharp : Key.Sharp f.1 := hkeys.sharp f.1 (List.mem_map_of_mem hf)
      rw [← hkey, Table.lookup?_of_mem hsharp hnodup hf]
      exact (h.1 f hf).2 hnormal.symm

/-- **Normal forms.** Values are alike exactly if they have the same normal form. -/
theorem alike_iff {v w : Value} (hv : v.WellKeyed) (hw : w.WellKeyed) :
    v.alike w = true ↔ v.normal = w.normal := by
  induction hv generalizing w with
  | scalar s =>
    cases hw <;> simp [alike, normal]
  | list _ ih =>
    cases hw with
    | scalar _ | map _ _ _ => simp [alike, normal]
    | list hws =>
      rw [alike, normal, normal, list.injEq]
      exact alikeItems_iff fun v hv w hw => ih v hv (hws w hw)
  | @map es keys nodup _ ih =>
    cases hw with
    | scalar _ | list _ => simp [alike, normal]
    | @map fs keys' nodup' hfs =>
      have htext {es : Entries} (keys : Table.TextKeys es) : Table.TextKeys (normalEntries es) := by
        rw [normalEntries_eq_map]
        exact List.forall_mem_map.2 keys
      have hkeys (es : Entries) : Table.keys (normalEntries es) = Table.keys es := by
        rw [normalEntries_eq_map]
        exact List.map_map
      have hlength (es : Entries) : (normalEntries es).length = es.length := by
        rw [normalEntries_eq_map, List.length_map]
      have hnodup : (Table.keys (normalEntries es)).Nodup := hkeys es ▸ nodup
      rw [alike, normal, normal, map.injEq, mergeSort_eq_iff (htext keys) hnodup (htext keys'),
        Bool.and_eq_true, beq_iff_eq,
        alikeEntries_iff keys' nodup' fun e he f hf => ih e he (hfs f hf)]
      constructor
      · rintro ⟨hsize, hsubset⟩
        refine (List.subperm_of_subset (List.Nodup.of_map _ hnodup) hsubset).perm_of_length_le ?_
        rw [hlength, hlength, hsize]
      · intro hperm
        rw [← hlength es, ← hlength fs]
        exact ⟨hperm.length_eq, hperm.subset⟩

end Value

end KnowledgeGraph
