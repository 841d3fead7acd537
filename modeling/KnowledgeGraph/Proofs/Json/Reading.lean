import KnowledgeGraph.Json.Parser
import KnowledgeGraph.Proofs.Number.Numeral
import KnowledgeGraph.Proofs.Value.Canonical

/-!
# What is read from a text

The maps in a value that is read from a text have different texts for keys, at every depth, and no
number in it has too many digits (`read?_isRead`).
-/

namespace KnowledgeGraph

/-! ## Values as they are read -/

/-- All maps in a value have different texts for keys, and no number in it has too many digits. -/
structure Value.IsRead (v : Value) : Prop where
  wellKeyed : v.WellKeyed
  writable : v.isWritable = true

namespace Value.IsRead

theorem scalar {k : Scalar} (h : k.isWritable = true) : (Value.scalar k).IsRead :=
  ⟨.scalar k, (isWritable_scalar k).trans h⟩

theorem list {items : List Value} (h : ∀ v ∈ items, v.IsRead) : (Value.list items).IsRead where
  wellKeyed := .list fun v hv => (h v hv).wellKeyed
  writable := by
    rw [isWritable_list, List.all_eq_true]
    exact fun v hv => (h v hv).writable

/-- Of entries with the same key the last one counts. -/
theorem merge {es : Entries} (hkeys : Table.TextKeys es) (h : ∀ e ∈ es, e.2.IsRead) :
    (Value.map (Table.merge [] es)).IsRead := by
  have hmem : ∀ e ∈ Table.merge [] es, e ∈ es := by
    intro e he
    obtain ⟨before, after, rfl, -⟩ := Table.mem_merge hkeys.sharp he
    exact List.mem_append_right before List.mem_cons_self
  constructor
  · exact .map (fun e he => hkeys e (hmem e he)) (Table.keys_merge_nodup hkeys.sharp .nil)
      fun e he => (h e (hmem e he)).wellKeyed
  · rw [isWritable_map, List.all_eq_true]
    intro e he
    obtain ⟨s, hs⟩ := hkeys e (hmem e he)
    rw [hs, (h e (hmem e he)).writable]
    rfl

end Value.IsRead

namespace Json

/-! ## Scalars -/

theorem readWord_isRead {word : String} {k : Scalar} (hk : k.isWritable = true)
    {cs rest : List Char} {v : Value} (h : readWord word (.scalar k) cs = .ok (v, rest)) :
    v.IsRead := by
  unfold readWord at h
  cases hword : expect? word.toList cs with
  | none =>
    rw [hword] at h
    cases h
  | some rest =>
    rw [hword] at h
    cases h
    exact .scalar hk

theorem wholeNumber_isRead {minus : Bool} {ds : List Char} (hds : ∀ c ∈ ds, c.isDigit = true)
    {v : Value} (h : wholeNumber minus ds = .ok v) : v.IsRead := by
  unfold wholeNumber at h
  split at h
  · cases h
  · rename_i hshort
    cases h
    have hless : naturalOf ds < numberLimit :=
      (naturalOf_lt hds).trans_le (Value.pow_le_numberLimit (Nat.not_lt.1 hshort))
    refine .scalar (Value.isWritable_scalarInt.2 ?_)
    split
    · rwa [Int.natAbs_neg]
    · exact hless

theorem readNumeral_isRead {minus : Bool} {cs rest : List Char} {v : Value}
    (h : readNumeral minus cs = .ok (v, rest)) : v.IsRead := by
  have hdigits (cs : List Char) : ∀ c ∈ (spanDigits cs).1, c.isDigit = true :=
    fun _ hc => List.mem_takeWhile_imp hc
  unfold readNumeral at h
  dsimp only at h
  -- The digits start with a zero, or not; it is all the same for what is made of them.
  split at h
  all_goals
    split at h
    · cases h
    · split at h
      · obtain ⟨w, hw, h⟩ := Except.map_eq_ok.1 h
        cases h
        refine wholeNumber_isRead ?_ hw
        first | exact List.forall_mem_singleton.2 rfl | exact hdigits _
      · cases h
        exact .scalar rfl

theorem readScalar_isRead {cs rest : List Char} {v : Value} (h : readScalar cs = .ok (v, rest)) :
    v.IsRead := by
  unfold readScalar at h
  split at h
  iterate 6 exact readWord_isRead rfl h
  · exact readNumeral_isRead h
  · exact readNumeral_isRead h

/-! ## Values -/

/-- What reading gives with some fuel. -/
structure Reads (fuel : Nat) : Prop where
  value : ∀ {cs rest v}, readValue fuel cs = .ok (v, rest) → v.IsRead
  items : ∀ {cs rest items}, readItems fuel cs = .ok (items, rest) → ∀ v ∈ items, v.IsRead
  entries : ∀ {cs rest es}, readEntries fuel cs = .ok (es, rest) →
    Table.TextKeys es ∧ ∀ e ∈ es, e.2.IsRead

section

variable {fuel : Nat} (ih : Reads fuel) {cs rest : List Char}
include ih

theorem readValue_isRead {v : Value} (h : readValue (fuel + 1) cs = .ok (v, rest)) : v.IsRead := by
  unfold readValue at h
  split at h
  · obtain ⟨_, -, h⟩ := Except.map_eq_ok.1 h
    cases h
    exact .scalar rfl
  · split at h
    · cases h
      exact .list nofun
    · obtain ⟨⟨items, _⟩, hitems, h⟩ := Except.map_eq_ok.1 h
      cases h
      exact .list (ih.items hitems)
  · split at h
    · cases h
      exact @Value.IsRead.merge [] (List.forall_mem_nil _) (List.forall_mem_nil _)
    · obtain ⟨⟨es, _⟩, hes, h⟩ := Except.map_eq_ok.1 h
      cases h
      exact .merge (ih.entries hes).1 (ih.entries hes).2
  · exact readScalar_isRead h

theorem readItems_isRead {items : List Value} (h : readItems (fuel + 1) cs = .ok (items, rest)) :
    ∀ v ∈ items, v.IsRead := by
  rw [readItems] at h
  obtain ⟨⟨v, _⟩, hv, h⟩ := Except.bind_eq_ok.1 h
  dsimp only at h
  split at h
  · cases h
    exact List.forall_mem_singleton.2 (ih.value hv)
  · obtain ⟨⟨vs, _⟩, hvs, h⟩ := Except.bind_eq_ok.1 h
    cases h
    exact List.forall_mem_cons.2 ⟨ih.value hv, ih.items hvs⟩
  · cases h

theorem readEntries_isRead {es : Entries} (h : readEntries (fuel + 1) cs = .ok (es, rest)) :
    Table.TextKeys es ∧ ∀ e ∈ es, e.2.IsRead := by
  rw [readEntries] at h
  obtain ⟨_, -, h⟩ := Except.bind_eq_ok.1 h
  obtain ⟨⟨name, _⟩, -, h⟩ := Except.bind_eq_ok.1 h
  obtain ⟨_, -, h⟩ := Except.bind_eq_ok.1 h
  obtain ⟨⟨v, _⟩, hv, h⟩ := Except.bind_eq_ok.1 h
  dsimp only at h
  split at h
  · cases h
    exact ⟨List.forall_mem_singleton.2 ⟨_, rfl⟩, List.forall_mem_singleton.2 (ih.value hv)⟩
  · obtain ⟨⟨es, _⟩, hes, h⟩ := Except.bind_eq_ok.1 h
    cases h
    obtain ⟨hkeys, hvalues⟩ := ih.entries hes
    exact ⟨List.forall_mem_cons.2 ⟨⟨_, rfl⟩, hkeys⟩, List.forall_mem_cons.2 ⟨ih.value hv, hvalues⟩⟩
  · cases h

end

theorem reads (fuel : Nat) : Reads fuel := by
  induction fuel with
  | zero => exact ⟨nofun, nofun, nofun⟩
  | succ fuel ih => exact ⟨readValue_isRead ih, readItems_isRead ih, readEntries_isRead ih⟩

/-- **What is read.** The maps in a value that is read from a text have different texts for keys, at
every depth, and no number in it has too many digits. -/
theorem read?_isRead {s : String} {v : Value} (h : read? s = some v) : v.IsRead := by
  unfold read? at h
  cases hread : read s with
  | error flaw =>
    rw [hread] at h
    cases h
  | ok w =>
    rw [hread] at h
    cases h
    obtain ⟨⟨v, rest⟩, hv, hread⟩ := Except.bind_eq_ok.1 hread
    dsimp only at hread
    split at hread
    · cases hread
      exact (reads _).value hv
    · cases hread

end Json

end KnowledgeGraph
