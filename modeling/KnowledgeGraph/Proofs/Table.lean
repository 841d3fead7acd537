import KnowledgeGraph.Value
import Mathlib.Data.List.Induction
import Mathlib.Data.List.Nodup

/-!
# Tables under sharp keys

Some keys are the same as others that differ from them, as 1 and 1.0 are, and a not-a-number is not
even the same as itself. A key is sharp (`Key.Sharp`) when it is the same as itself and as nothing
else. Texts, null, and pairs of sharp keys are sharp, and under such keys a table behaves like a
finite map in the order of its first writes: see `lookup?_put_self`, `lookup?_put_of_ne`,
`put_split` and `keys_merge`.

Other keys are at least told apart consistently (`PartialEquivKey`). A write is then seen under all
keys that are the same (`lookup?_put`), and of the writes of a merge the last one (`lookup?_merge`).
-/

namespace KnowledgeGraph

/-! ## Sharp keys -/

/-- A key is sharp when it is the same as itself and as nothing else. -/
def Key.Sharp {κ : Type} [Key κ] (k : κ) : Prop := ∀ k', Key.same k' k = true ↔ k' = k

namespace Key

variable {κ μ : Type} [Key κ] [Key μ]

theorem sharp_text (s : String) : Sharp (Scalar.text s) := by
  intro k
  show Scalar.same k (.text s) = true ↔ k = .text s
  cases k <;> simp [Scalar.same, Scalar.quantity?]

/-- Only a text is the same as a text, also the other way round. -/
theorem eq_of_text_same {s : String} {k : Scalar} (h : same (Scalar.text s) k = true) :
    k = .text s := by
  change Scalar.same (.text s) k = true at h
  cases k <;> simp_all [Scalar.same, Scalar.quantity?]

/-- Of keys that are the same, both are a given text or neither is. -/
theorem eq_text_congr {s : String} {j k : Scalar} (h : same j k = true) :
    j = .text s ↔ k = .text s := by
  constructor
  · rintro rfl
    exact eq_of_text_same h
  · rintro rfl
    exact (sharp_text s j).1 h

theorem sharp_null : Sharp Scalar.null := by
  intro k
  show Scalar.same k .null = true ↔ k = .null
  cases k <;> simp [Scalar.same, Scalar.quantity?]

theorem sharp_string (s : String) : Sharp s := by
  intro k
  show (k == s) = true ↔ k = s
  exact beq_iff_eq

theorem Sharp.pair {k : κ} {m : μ} (hk : Sharp k) (hm : Sharp m) : Sharp (k, m) := by
  rintro ⟨k', m'⟩
  show (Key.same k' k && Key.same m' m) = true ↔ (k', m') = (k, m)
  rw [Bool.and_eq_true, hk k', hm m', Prod.mk.injEq]

theorem Sharp.same_self {k : κ} (hk : Sharp k) : Key.same k k = true := (hk k).2 rfl

theorem Sharp.same_of_ne {k k' : κ} (hk : Sharp k) (h : k' ≠ k) : Key.same k' k = false := by
  rw [← Bool.not_eq_true, hk k']
  exact h

end Key

/-! ## Consistent keys -/

/-- Keys of a type are told apart consistently: what is the same as one and the same key is the
same. Some keys may still be the same as nothing. -/
class PartialEquivKey (κ : Type) [Key κ] : Prop where
  symm : ∀ {a b : κ}, Key.same a b = true → Key.same b a = true
  trans : ∀ {a b c : κ}, Key.same a b = true → Key.same b c = true → Key.same a c = true

namespace Key

variable {κ μ : Type} [Key κ] [Key μ]

theorem same_congr_right [PartialEquivKey κ] {k k' : κ} (h : same k k' = true) (j : κ) :
    same j k = same j k' := by
  rw [Bool.eq_iff_iff]
  exact ⟨fun hj => PartialEquivKey.trans hj h,
    fun hj => PartialEquivKey.trans hj (PartialEquivKey.symm h)⟩

instance [PartialEquivKey κ] [PartialEquivKey μ] : PartialEquivKey (κ × μ) where
  symm {a b} h := by
    obtain ⟨h₁, h₂⟩ := Bool.and_eq_true_iff.1 h
    exact Bool.and_eq_true_iff.2 ⟨PartialEquivKey.symm h₁, PartialEquivKey.symm h₂⟩
  trans {a b c} h h' := by
    obtain ⟨h₁, h₂⟩ := Bool.and_eq_true_iff.1 h
    obtain ⟨h₁', h₂'⟩ := Bool.and_eq_true_iff.1 h'
    exact Bool.and_eq_true_iff.2 ⟨PartialEquivKey.trans h₁ h₁', PartialEquivKey.trans h₂ h₂'⟩

end Key

namespace Table

open Key (Sharp)

variable {κ ν : Type} [Key κ] {t : Table κ ν} {k k' : κ} {v : ν}

/-! ## Looking up -/

theorem lookup?_cons (e : κ × ν) (t : Table κ ν) (k : κ) :
    lookup? (e :: t) k = if Key.same e.1 k then some e.2 else lookup? t k := by
  unfold lookup?
  rw [List.find?_cons]
  cases Key.same e.1 k <;> rfl

theorem lookup?_eq_none (hk : Sharp k) : t.lookup? k = none ↔ k ∉ t.keys := by
  unfold lookup? keys
  simp only [Option.map_eq_none_iff, List.find?_eq_none, hk _, List.mem_map, not_exists, not_and]

theorem mem_of_lookup? (hk : Sharp k) (h : t.lookup? k = some v) : (k, v) ∈ t := by
  unfold lookup? at h
  obtain ⟨e, he, rfl⟩ := Option.map_eq_some_iff.1 h
  have hsame : e.1 = k := (hk _).1 (List.find?_some (p := fun e : κ × ν => Key.same e.1 k) he)
  rw [← hsame]
  exact List.mem_of_find?_eq_some he

theorem mem_values_of_lookup? (h : t.lookup? k = some v) : v ∈ t.values := by
  obtain ⟨e, he, rfl⟩ := Option.map_eq_some_iff.1 h
  exact List.mem_map_of_mem (List.mem_of_find?_eq_some he)

theorem has_eq_true (hk : Sharp k) : t.has k = true ↔ k ∈ t.keys := by
  unfold has keys
  simp only [List.any_eq_true, hk _, List.mem_map]

theorem has_eq_isSome (t : Table κ ν) (k : κ) : t.has k = (t.lookup? k).isSome := by
  unfold has lookup?
  rw [Option.isSome_map, List.isSome_find?]

theorem lookup?_append (t u : Table κ ν) (k : κ) :
    (t ++ u).lookup? k = (t.lookup? k).or (u.lookup? k) := by
  unfold lookup?
  rw [List.find?_append, Option.map_or]

theorem lookup?_congr [PartialEquivKey κ] (h : Key.same k k' = true) (t : Table κ ν) :
    t.lookup? k = t.lookup? k' := by
  unfold lookup?
  simp only [Key.same_congr_right h]

/-! ## Writing -/

theorem put_cons (e : κ × ν) (t : Table κ ν) (k : κ) (v : ν) :
    put (e :: t) k v = if Key.same e.1 k then (e.1, v) :: t else e :: put t k v := rfl

theorem lookup?_put_of_same (hk : Key.same k k = true) (t : Table κ ν) (v : ν) :
    (t.put k v).lookup? k = some v := by
  induction t with
  | nil =>
    show lookup? [(k, v)] k = _
    rw [lookup?_cons, if_pos hk]
  | cons e rest ih =>
    rw [put_cons]
    by_cases hsame : Key.same e.1 k = true
    · rw [if_pos hsame, lookup?_cons, if_pos hsame]
    · rw [if_neg hsame, lookup?_cons, if_neg hsame, ih]

theorem lookup?_put_self (hk : Sharp k) (t : Table κ ν) (v : ν) :
    (t.put k v).lookup? k = some v := lookup?_put_of_same hk.same_self t v

/-- A key that is told apart from the one written keeps its value; it need not be told apart from
others. -/
theorem lookup?_put_of_same_eq_false (hk : Sharp k) (h : Key.same k k' = false) (t : Table κ ν)
    (v : ν) : (t.put k v).lookup? k' = t.lookup? k' := by
  induction t with
  | nil =>
    show lookup? [(k, v)] k' = _
    rw [lookup?_cons, h]
    rfl
  | cons e rest ih =>
    rw [put_cons]
    split
    · rename_i hsame
      rw [lookup?_cons, lookup?_cons, (hk _).1 hsame, h]
      rfl
    · rw [lookup?_cons, lookup?_cons, ih]

theorem lookup?_put_of_ne (hk : Sharp k) (hk' : Sharp k') (h : k' ≠ k) (t : Table κ ν) (v : ν) :
    (t.put k v).lookup? k' = t.lookup? k' :=
  lookup?_put_of_same_eq_false hk (hk'.same_of_ne fun heq => h heq.symm) t v

theorem put_of_has_eq_false (h : t.has k = false) : t.put k v = t ++ [(k, v)] := by
  induction t with
  | nil => rfl
  | cons e rest ih =>
    obtain ⟨hne, hrest⟩ : Key.same e.1 k = false ∧ has rest k = false := Bool.or_eq_false_iff.1 h
    rw [put_cons, hne, if_neg Bool.false_ne_true, ih hrest]
    rfl

theorem put_of_not_mem (hk : Sharp k) (h : k ∉ t.keys) : t.put k v = t ++ [(k, v)] :=
  put_of_has_eq_false (Bool.eq_false_iff.2 fun hhas => h ((has_eq_true hk).1 hhas))

/-- Whatever the key, a write keeps the keys that are there, and adds its own only if it is new. -/
theorem keys_put (t : Table κ ν) (k : κ) (v : ν) :
    (t.put k v).keys = if t.has k then t.keys else t.keys ++ [k] := by
  induction t with
  | nil => rfl
  | cons e rest ih =>
    have hhas : has (e :: rest) k = (Key.same e.1 k || has rest k) := rfl
    rw [put_cons, hhas]
    by_cases hsame : Key.same e.1 k = true
    · rw [if_pos hsame, hsame, Bool.true_or, if_pos rfl]
      rfl
    · rw [if_neg hsame, Bool.eq_false_iff.2 hsame, Bool.false_or]
      show e.1 :: keys (put rest k v) = _
      rw [ih]
      split <;> rfl

theorem keys_put_of_mem (hk : Sharp k) (h : k ∈ t.keys) : (t.put k v).keys = t.keys := by
  rw [keys_put, if_pos ((has_eq_true hk).2 h)]

theorem keys_put_nodup (hk : Sharp k) (hnd : t.keys.Nodup) : (t.put k v).keys.Nodup := by
  by_cases h : k ∈ t.keys
  · rwa [keys_put_of_mem hk h]
  · rw [put_of_not_mem hk h]
    unfold keys at hnd h ⊢
    rw [List.map_append]
    exact hnd.append (List.nodup_singleton k) (List.disjoint_singleton.2 h)

/-- Whatever the key, what is there after a write was there, or has the new value under a key that
is the same. -/
theorem mem_put_cases {e : κ × ν} (h : e ∈ t.put k v) :
    e ∈ t ∨ e = (k, v) ∨ Key.same e.1 k = true ∧ e.2 = v := by
  induction t with
  | nil => exact .inr (.inl (List.mem_singleton.1 h))
  | cons first rest ih =>
    rw [put_cons] at h
    split at h
    · rename_i hsame
      obtain rfl | h := List.mem_cons.1 h
      · exact .inr (.inr ⟨hsame, rfl⟩)
      · exact .inl (List.mem_cons_of_mem _ h)
    · obtain rfl | h := List.mem_cons.1 h
      · exact .inl List.mem_cons_self
      · exact (ih h).imp (List.mem_cons_of_mem _) id

theorem mem_put {e : κ × ν} (hk : Sharp k) (h : e ∈ t.put k v) : e = (k, v) ∨ e ∈ t := by
  obtain h | rfl | ⟨hsame, hvalue⟩ := mem_put_cases h
  · exact .inr h
  · exact .inl rfl
  · exact .inl (Prod.ext ((hk _).1 hsame) hvalue)

/-- What is there after a write is what was written, or was there before. -/
theorem mem_values_put {w : ν} (h : w ∈ (t.put k v).values) : w = v ∨ w ∈ t.values := by
  obtain ⟨e, he, rfl⟩ := List.mem_map.1 h
  obtain he | rfl | ⟨-, hvalue⟩ := mem_put_cases he
  · exact .inr (List.mem_map_of_mem he)
  · exact .inl rfl
  · exact .inl hvalue

theorem mem_values_put_self (t : Table κ ν) (k : κ) (v : ν) : v ∈ (t.put k v).values := by
  induction t with
  | nil => exact List.mem_cons_self
  | cons e rest ih =>
    rw [put_cons]
    split
    · exact List.mem_cons_self
    · exact List.mem_cons_of_mem _ ih

theorem mem_values_erase {w : ν} (h : w ∈ (t.erase k).values) : w ∈ t.values :=
  (List.filter_sublist.map _).subset h

theorem keys_erase_nodup (hnd : t.keys.Nodup) (k : κ) : (t.erase k).keys.Nodup :=
  hnd.sublist (List.filter_sublist.map _)

theorem erase_put_self (hk : Sharp k) (t : Table κ ν) (v : ν) : (t.put k v).erase k = t.erase k := by
  induction t with
  | nil => exact List.filter_cons_of_neg (by simp [hk.same_self])
  | cons e rest ih =>
    unfold erase at ih ⊢
    rw [put_cons]
    by_cases hsame : Key.same e.1 k = true
    · rw [if_pos hsame, List.filter_cons_of_neg (by simp [hsame]),
        List.filter_cons_of_neg (by simp [hsame])]
    · rw [if_neg hsame, List.filter_cons, List.filter_cons, ih]

theorem erase_put_of_ne (hk : Sharp k) (hk' : Sharp k') (h : k ≠ k') (t : Table κ ν) (v : ν) :
    (t.put k v).erase k' = (t.erase k').put k v := by
  have hkept : Key.same k k' = false := hk'.same_of_ne h
  induction t with
  | nil => exact List.filter_cons_of_pos (by simp [hkept])
  | cons e rest ih =>
    unfold erase at ih ⊢
    rw [put_cons]
    by_cases hsame : Key.same e.1 k = true
    · have he : e.1 = k := (hk _).1 hsame
      rw [if_pos hsame, List.filter_cons_of_pos (by simp [he, hkept]),
        List.filter_cons_of_pos (by simp [he, hkept]), put_cons, if_pos hsame]
    · rw [if_neg hsame, List.filter_cons, List.filter_cons, ih]
      split
      · rw [put_cons, if_neg hsame]
      · rfl

theorem lookup?_erase_of_ne (hk : Sharp k) (h : k ≠ k') (hk' : Sharp k') (t : Table κ ν) :
    (t.erase k').lookup? k = t.lookup? k := by
  have htest : (fun e : κ × ν => decide ((!Key.same e.1 k') = true ∧ Key.same e.1 k = true)) =
      fun e => Key.same e.1 k := by
    funext e
    rw [Bool.eq_iff_iff, decide_eq_true_iff, hk]
    refine and_iff_right_of_imp ?_
    rintro rfl
    rw [hk'.same_of_ne h]
    rfl
  unfold erase lookup?
  rw [List.find?_filter, htest]

theorem lookup?_alter_self (hk : Sharp k) (t : Table κ ν) (start : ν) (f : ν → ν) :
    (t.alter k start f).lookup? k = some (f ((t.lookup? k).getD start)) :=
  lookup?_put_self hk t _

theorem lookup?_alter_of_ne (hk : Sharp k) (hk' : Sharp k') (h : k' ≠ k) (t : Table κ ν)
    (start : ν) (f : ν → ν) : (t.alter k start f).lookup? k' = t.lookup? k' :=
  lookup?_put_of_ne hk hk' h t _

/-- Under a key that is the same as itself the last of two writes is left. -/
theorem put_put (hk : Key.same k k = true) (t : Table κ ν) (v w : ν) :
    (t.put k v).put k w = t.put k w := by
  induction t with
  | nil =>
    show put [(k, v)] k w = _
    rw [put_cons, if_pos hk]
    rfl
  | cons e rest ih =>
    rw [put_cons, put_cons]
    by_cases hsame : Key.same e.1 k = true
    · rw [if_pos hsame, if_pos hsame, put_cons, if_pos hsame]
    · rw [if_neg hsame, if_neg hsame, put_cons, if_neg hsame, ih]

/-- Writes under different keys can be exchanged if one of the keys is there already. -/
theorem put_comm (hk : Sharp k) (hk' : Sharp k') (h : k ≠ k') (hmem : k ∈ t.keys) (v w : ν) :
    (t.put k v).put k' w = (t.put k' w).put k v := by
  induction t with
  | nil => cases hmem
  | cons e rest ih =>
    rw [put_cons, put_cons]
    by_cases heq : e.1 = k
    · have hne : ¬ Key.same e.1 k' = true := fun hsame => h (heq.symm.trans ((hk' _).1 hsame))
      rw [if_pos ((hk _).2 heq), if_neg hne, put_cons, put_cons, if_neg hne, if_pos ((hk _).2 heq)]
    · have hne : ¬ Key.same e.1 k = true := fun hsame => heq ((hk _).1 hsame)
      rw [if_neg hne, put_cons]
      split
      · rw [put_cons, if_neg hne]
      · have hrest : k ∈ keys rest := (List.mem_cons.1 hmem).resolve_left fun h => heq h.symm
        rw [put_cons, if_neg hne, ih hrest]

theorem alter_alter (hk : Key.same k k = true) (t : Table κ ν) (start : ν) (f g : ν → ν) :
    (t.alter k start f).alter k start g = t.alter k start (g ∘ f) := by
  unfold alter
  rw [lookup?_put_of_same hk, put_put hk]
  rfl

/-- The values after a change are those before it and a changed one, or one that starts. -/
theorem forall_values_alter {P : ν → Prop} {start : ν} {f : ν → ν} (hstart : P start)
    (hf : ∀ v, P v → P (f v)) (ht : ∀ v ∈ t.values, P v) :
    ∀ v ∈ (t.alter k start f).values, P v := by
  intro v hv
  obtain rfl | hv := mem_values_put hv
  · apply hf
    cases hfound : t.lookup? k with
    | none => exact hstart
    | some w => exact ht w (mem_values_of_lookup? hfound)
  · exact ht v hv

/-- **Writes.** Whatever the key, a write is seen under the keys that are the same, and under no
others. -/
theorem lookup?_put [PartialEquivKey κ] (t : Table κ ν) (k : κ) (v : ν) (k' : κ) :
    (t.put k v).lookup? k' = if Key.same k k' then some v else t.lookup? k' := by
  induction t with
  | nil => exact lookup?_cons (k, v) [] k'
  | cons e rest ih =>
    rw [put_cons]
    by_cases hsame : Key.same e.1 k = true
    · have heq : Key.same e.1 k' = Key.same k k' := by
        rw [Bool.eq_iff_iff]
        exact ⟨PartialEquivKey.trans (PartialEquivKey.symm hsame), PartialEquivKey.trans hsame⟩
      rw [if_pos hsame, lookup?_cons, lookup?_cons, heq]
      split <;> rfl
    · rw [if_neg hsame, lookup?_cons, lookup?_cons, ih]
      by_cases hk : Key.same k k' = true
      · have hne : ¬ Key.same e.1 k' = true := fun he =>
          hsame (PartialEquivKey.trans he (PartialEquivKey.symm hk))
        rw [if_neg hne, if_pos hk, if_pos hk]
      · rw [if_neg hk, if_neg hk]

/-- A write that keeps what is there is seen under the keys that are the same and had no value. -/
theorem lookup?_putNew [PartialEquivKey κ] (t : Table κ ν) (k : κ) (v : ν) (k' : κ) :
    (t.putNew k v).lookup? k' = (t.lookup? k').or (if Key.same k k' then some v else none) := by
  unfold putNew
  split
  · rename_i hhas
    split
    · rename_i hsame
      rw [has_eq_isSome, lookup?_congr hsame] at hhas
      rw [Option.or_of_isSome hhas]
    · exact Option.or_none.symm
  · rw [lookup?_append]
    exact congrArg _ (lookup?_cons (k, v) [] k')

omit [Key κ] in
theorem keys_append (t u : Table κ ν) : (t ++ u).keys = t.keys ++ u.keys := List.map_append

omit [Key κ] in
theorem values_append (t u : Table κ ν) : (t ++ u).values = t.values ++ u.values :=
  List.map_append

/-! ## Tables without keys that are the same -/

/-- No two keys of the table are the same. -/
def IsSimple (t : Table κ ν) : Prop := t.keys.Pairwise fun k k' => Key.same k k' = false

theorem has_eq_any_keys (t : Table κ ν) (k : κ) : t.has k = t.keys.any (Key.same · k) := by
  unfold has keys
  rw [List.any_map]
  rfl

theorem pairwise_concat {ks : List κ} (h : ks.Pairwise fun k k' => Key.same k k' = false)
    (hnew : ¬ ks.any (Key.same · k) = true) :
    (ks ++ [k]).Pairwise fun k k' => Key.same k k' = false := by
  rw [List.pairwise_append]
  refine ⟨h, List.pairwise_singleton _ _, fun j hj j' hj' => ?_⟩
  rw [List.mem_singleton.1 hj']
  exact Bool.eq_false_iff.2 fun hsame => hnew (List.any_eq_true.2 ⟨j, hj, hsame⟩)

theorem IsSimple.put (h : t.IsSimple) (k : κ) (v : ν) : (t.put k v).IsSimple := by
  unfold IsSimple at h ⊢
  rw [keys_put, has_eq_any_keys]
  split
  · exact h
  · exact pairwise_concat h ‹_›

theorem IsSimple.merge (h : t.IsSimple) (us : Table κ ν) : (t.merge us).IsSimple := by
  induction us generalizing t with
  | nil => exact h
  | cons e rest ih => exact ih (h.put e.1 e.2)

/-! ## Places -/

/-- Where no key occurs twice, each entry is the one that is found under its key. -/
theorem lookup?_of_mem {e : κ × ν} (hk : Sharp e.1) (hnd : t.keys.Nodup) (h : e ∈ t) :
    t.lookup? e.1 = some e.2 := by
  induction t with
  | nil => cases h
  | cons first rest ih =>
    have hfirst : first.1 ∉ keys rest := (List.nodup_cons.1 hnd).1
    have hrest : (keys rest).Nodup := (List.nodup_cons.1 hnd).2
    rw [lookup?_cons]
    obtain rfl | hmem := List.mem_cons.1 h
    · rw [if_pos hk.same_self]
    · have hmem' : e.1 ∈ keys rest := List.mem_map_of_mem hmem
      have hne : first.1 ≠ e.1 := fun heq => hfirst (heq ▸ hmem')
      rw [hk.same_of_ne hne, if_neg Bool.false_ne_true]
      exact ih hrest hmem

/-- A key that is found has a place, at which a write puts the new value. -/
theorem put_split {w : ν} (hk : Sharp k) (h : t.lookup? k = some w) (v : ν) :
    ∃ before after, t = before ++ (k, w) :: after ∧ t.put k v = before ++ (k, v) :: after := by
  induction t with
  | nil => cases h
  | cons e rest ih =>
    rw [lookup?_cons] at h
    rw [put_cons]
    by_cases hsame : Key.same e.1 k = true
    · rw [if_pos hsame, Option.some.injEq] at h
      rw [if_pos hsame, ← (hk e.1).1 hsame, ← h]
      exact ⟨[], rest, rfl, rfl⟩
    · rw [if_neg hsame] at h
      rw [if_neg hsame]
      obtain ⟨before, after, hrest, hput⟩ := ih h
      exact ⟨e :: before, after, congrArg (e :: ·) hrest, congrArg (e :: ·) hput⟩

/-- Where no key occurs twice, to remove a key is to take its place out. -/
theorem erase_split {w : ν} {before after : Table κ ν} (hk : Sharp k)
    (hnd : (keys (before ++ (k, w) :: after)).Nodup) :
    erase (before ++ (k, w) :: after) k = before ++ after := by
  rw [keys_append] at hnd
  obtain ⟨hnew, -⟩ := List.nodup_cons.1 (List.nodup_middle.1 hnd)
  have hother : ∀ e ∈ before ++ after, (!Key.same e.1 k) = true := by
    intro e he
    have hmem : e.1 ∈ keys before ++ keys after := keys_append before after ▸ List.mem_map_of_mem he
    rw [hk.same_of_ne fun heq => hnew (heq ▸ hmem)]
    rfl
  unfold erase
  rw [List.filter_append, List.filter_cons, hk.same_self, Bool.not_true,
    if_neg Bool.false_ne_true, ← List.filter_append, List.filter_eq_self.2 hother]

/-- Where no key occurs twice, a write leaves nothing else under its key. -/
theorem eq_or_of_mem_put {e : κ × ν} (hk : Sharp k) (hnd : t.keys.Nodup) (h : e ∈ t.put k v) :
    e = (k, v) ∨ e ∈ t ∧ e.1 ≠ k := by
  by_cases hkey : e.1 = k
  · have hfound : (t.put k v).lookup? e.1 = some e.2 :=
      lookup?_of_mem (hkey ▸ hk) (keys_put_nodup hk hnd) h
    rw [hkey, lookup?_put_self hk, Option.some.injEq] at hfound
    exact .inl (Prod.ext hkey hfound.symm)
  · exact (mem_put hk h).imp_right fun hmem => ⟨hmem, hkey⟩

/-! ## Parts and images -/

/-- Whether an entry is in a part that does not tell keys apart that are the same. -/
theorem filter_put {P : κ → Bool} (hP : ∀ j, Key.same j k = true → P j = P k) (t : Table κ ν)
    (v : ν) : (t.put k v).filter (fun e => P e.1) =
      if P k then put (t.filter fun e => P e.1) k v else t.filter fun e => P e.1 := by
  induction t with
  | nil =>
    show List.filter (fun e => P e.1) [(k, v)] = _
    rw [List.filter_cons]
    rfl
  | cons e rest ih =>
    rw [put_cons]
    by_cases hsame : Key.same e.1 k = true
    · rw [if_pos hsame, List.filter_cons, List.filter_cons, hP e.1 hsame]
      split
      · rw [put_cons, if_pos hsame]
      · rfl
    · rw [if_neg hsame, List.filter_cons, List.filter_cons, ih]
      split
      · split
        · rw [put_cons, if_neg hsame]
        · rfl
      · rfl

theorem lookup?_filter {P : κ → Bool} (hP : ∀ j, Key.same j k = true → P j = true)
    (t : Table κ ν) : lookup? (t.filter fun e => P e.1) k = t.lookup? k := by
  have hboth : ∀ e : κ × ν, decide (P e.1 = true ∧ Key.same e.1 k = true) = Key.same e.1 k := by
    intro e
    cases hsame : Key.same e.1 k with
    | false => simp
    | true => simp [hP e.1 hsame]
  unfold lookup?
  rw [List.find?_filter]
  simp only [hboth]

omit [Key κ] in
/-- The table with each value changed according to its key. -/
def mapValues {μ : Type} (f : κ → ν → μ) (t : Table κ ν) : Table κ μ :=
  t.map fun e => (e.1, f e.1 e.2)

section

variable {μ : Type} {f : κ → ν → μ} (hf : ∀ j, Key.same j k = true → f j = f k)
include hf

theorem mapValues_put (t : Table κ ν) (v : ν) :
    (t.put k v).mapValues f = (t.mapValues f).put k (f k v) := by
  unfold mapValues
  induction t with
  | nil => rfl
  | cons e rest ih =>
    rw [put_cons, List.map_cons, put_cons]
    by_cases hsame : Key.same e.1 k = true
    · rw [if_pos hsame, if_pos hsame, List.map_cons, hf e.1 hsame]
    · rw [if_neg hsame, if_neg hsame, List.map_cons, ih]

theorem lookup?_mapValues (t : Table κ ν) :
    (t.mapValues f).lookup? k = (t.lookup? k).map (f k) := by
  unfold mapValues
  induction t with
  | nil => rfl
  | cons e rest ih =>
    rw [List.map_cons, lookup?_cons, lookup?_cons, ih]
    split
    · rename_i hsame
      rw [hf e.1 hsame]
      rfl
    · rfl

end

/-! ## Texts as keys -/

/-- All keys of the table are texts. -/
def TextKeys (t : Table Scalar ν) : Prop := ∀ e ∈ t, ∃ s, e.1 = .text s

theorem TextKeys.alter {t : Table Scalar ν} (h : t.TextKeys) (s : String) (start : ν) (f : ν → ν) :
    (t.alter (.text s) start f).TextKeys := by
  intro e he
  obtain rfl | he := mem_put (Key.sharp_text s) he
  · exact ⟨s, rfl⟩
  · exact h e he

theorem TextKeys.sharp {t : Table Scalar ν} (h : t.TextKeys) : ∀ k ∈ t.keys, Sharp k := by
  intro k hk
  obtain ⟨e, he, rfl⟩ := List.mem_map.1 hk
  obtain ⟨s, hs⟩ := h e he
  exact hs ▸ Key.sharp_text s

/-- What is found among texts is found under its own key, which is a text. -/
theorem TextKeys.mem_of_lookup? {t : Table Scalar ν} {k : Scalar} (h : t.TextKeys)
    (hfound : t.lookup? k = some v) : (k, v) ∈ t ∧ ∃ s, k = .text s := by
  unfold Table.lookup? at hfound
  obtain ⟨e, he, rfl⟩ := Option.map_eq_some_iff.1 hfound
  have hmem : e ∈ t := List.mem_of_find?_eq_some he
  have hsame : Key.same e.1 k = true :=
    List.find?_some (p := fun e : Scalar × ν => Key.same e.1 k) he
  obtain ⟨s, hs⟩ := h e hmem
  rw [hs] at hsame
  obtain rfl := Key.eq_of_text_same hsame
  exact ⟨hs ▸ hmem, s, rfl⟩

/-! ## Counting -/

/-- Where all keys are sharp, counting the members of a list adds up their occurrences. -/
theorem lookup?_foldl_countOne [DecidableEq κ] (hsharp : ∀ k : κ, Sharp k) (k : κ) (ks : List κ) :
    ∀ t : Table κ Nat,
      ((ks.foldl countOne t).lookup? k).getD 0 = (t.lookup? k).getD 0 + ks.count k := by
  induction ks with
  | nil => exact fun t => rfl
  | cons first rest ih =>
    intro t
    rw [List.foldl_cons, ih, List.count_cons]
    unfold countOne
    by_cases h : k = first
    · rw [← h, lookup?_alter_self (hsharp k), if_pos (beq_self_eq_true k), Option.getD_some]
      omega
    · have hne : (first == k) = false := beq_eq_false_iff_ne.2 fun heq => h heq.symm
      rw [lookup?_alter_of_ne (hsharp first) (hsharp k) h, hne, if_neg Bool.false_ne_true,
        Nat.add_zero]

/-! ## Merging -/

theorem merge_of_nodup {us : Table κ ν} (hus : ∀ k ∈ us.keys, Sharp k)
    (hnd : (t.keys ++ us.keys).Nodup) : t.merge us = t ++ us := by
  induction us generalizing t with
  | nil => exact (List.append_nil t).symm
  | cons e rest ih =>
    have hnew : e.1 ∉ t.keys := fun h => (List.disjoint_of_nodup_append hnd) h List.mem_cons_self
    have hput : t.put e.1 e.2 = t ++ [e] := put_of_not_mem (hus _ List.mem_cons_self) hnew
    show merge (t.put e.1 e.2) rest = _
    rw [hput, ih (fun k hk => hus k (List.mem_cons_of_mem _ hk)), List.append_assoc]
    · rfl
    · unfold keys at hnd ⊢
      rw [List.map_append, List.append_assoc]
      exact hnd

/-- A member that comes last is a duplicate or stays last. -/
theorem eraseDups_append_singleton {α : Type} [DecidableEq α] (xs : List α) (x : α) :
    (xs ++ [x]).eraseDups = if x ∈ xs then xs.eraseDups else xs.eraseDups ++ [x] := by
  rw [List.eraseDups_append]
  unfold List.removeAll
  by_cases h : x ∈ xs
  · simp [h]
  · simp [h, List.eraseDups_cons]

theorem merge_append (t us vs : Table κ ν) : t.merge (us ++ vs) = (t.merge us).merge vs :=
  List.foldl_append

/-- **Merges.** Of the entries that are written under one key the last one is seen. -/
theorem lookup?_merge [PartialEquivKey κ] (t us : Table κ ν) (k : κ) :
    (t.merge us).lookup? k = (lookup? us.reverse k).or (t.lookup? k) := by
  induction us using List.reverseRecOn with
  | nil => rfl
  | append_singleton us e ih =>
    rw [merge_append, List.reverse_append]
    show (put (merge t us) e.1 e.2).lookup? k = (lookup? (e :: us.reverse) k).or _
    rw [lookup?_put, lookup?_cons, ih]
    split <;> rfl

section

variable {us : Table κ ν} (hus : ∀ k ∈ us.keys, Sharp k)
include hus

theorem keys_merge_nodup (hnd : t.keys.Nodup) : (t.merge us).keys.Nodup := by
  induction us generalizing t with
  | nil => exact hnd
  | cons e rest ih =>
    exact ih (fun k hk => hus k (List.mem_cons_of_mem _ hk))
      (keys_put_nodup (hus e.1 List.mem_cons_self) hnd)

/-- The keys of a merge are those that are written, in the order in which they come in first. -/
theorem keys_merge {α : Type} [DecidableEq α] {f : κ → α} (hf : Function.Injective f) :
    (merge [] us).keys.map f = (us.keys.map f).eraseDups := by
  induction us using List.reverseRecOn with
  | nil => rfl
  | append_singleton us e ih =>
    rw [keys_append, List.forall_mem_append] at hus
    have ih := ih hus.1
    have hk : Sharp e.1 := hus.2 e.1 List.mem_cons_self
    have hmem : e.1 ∈ keys (merge [] us) ↔ f e.1 ∈ (keys us).map f := by
      rw [← List.mem_map_of_injective hf, ih, List.mem_eraseDups]
    rw [merge_append, keys_append, List.map_append]
    show (keys (put (merge [] us) e.1 e.2)).map f = ((keys us).map f ++ [f e.1]).eraseDups
    rw [eraseDups_append_singleton, ← ih]
    by_cases hold : e.1 ∈ keys (merge [] us)
    · rw [keys_put_of_mem hk hold, if_pos (hmem.1 hold)]
    · rw [put_of_not_mem hk hold, if_neg (mt hmem.2 hold), keys_append, List.map_append]
      rfl

/-- What a merge has under a key is what was written there last. -/
theorem mem_merge {e : κ × ν} (h : e ∈ merge [] us) :
    ∃ before after, us = before ++ e :: after ∧ e.1 ∉ keys after := by
  induction us using List.reverseRecOn with
  | nil => cases h
  | append_singleton us last ih =>
    rw [keys_append, List.forall_mem_append] at hus
    have hk : Sharp last.1 := hus.2 last.1 List.mem_cons_self
    rw [merge_append] at h
    obtain rfl | ⟨hmem, hne⟩ := eq_or_of_mem_put hk (keys_merge_nodup hus.1 (t := []) .nil) h
    · exact ⟨us, [], rfl, List.not_mem_nil⟩
    · obtain ⟨before, after, rfl, hafter⟩ := ih hus.1 hmem
      refine ⟨before, after ++ [last], List.append_assoc .., ?_⟩
      rw [keys_append]
      exact List.not_mem_append hafter fun hlast => hne (List.mem_singleton.1 hlast)

end

end Table

/-! ## Distinct keys -/

theorem distinct_concat {κ : Type} [Key κ] (ks : List κ) (k : κ) : distinct (ks ++ [k]) =
    if (distinct ks).any (Key.same · k) then distinct ks else distinct ks ++ [k] := by
  unfold distinct
  rw [List.foldl_append]
  rfl

theorem pairwise_distinct {κ : Type} [Key κ] (ks : List κ) :
    (distinct ks).Pairwise fun k k' => Key.same k k' = false := by
  induction ks using List.reverseRecOn with
  | nil => exact .nil
  | append_singleton ks k ih =>
    rw [distinct_concat]
    split
    · exact ih
    · exact Table.pairwise_concat ih ‹_›

/-- A key is the same as a distinct one exactly if it is the same as any. -/
theorem any_distinct {κ : Type} [Key κ] [PartialEquivKey κ] (ks : List κ) (k : κ) :
    (distinct ks).any (Key.same · k) = ks.any (Key.same · k) := by
  induction ks using List.reverseRecOn with
  | nil => rfl
  | append_singleton ks last ih =>
    rw [distinct_concat, List.any_append, ← ih]
    split
    · rename_i hold
      obtain ⟨j, hj, hsame⟩ := List.any_eq_true.1 hold
      -- A member that is left out is the same as an earlier one.
      by_cases hlast : Key.same last k = true
      · have hany : (distinct ks).any (Key.same · k) = true :=
          List.any_eq_true.2 ⟨j, hj, PartialEquivKey.trans hsame hlast⟩
        rw [hany, Bool.true_or]
      · simp [hlast]
    · rw [List.any_append]

end KnowledgeGraph
