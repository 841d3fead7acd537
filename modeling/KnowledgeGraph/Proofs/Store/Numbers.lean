import KnowledgeGraph.Store.Exchange
import KnowledgeGraph.Proofs.Attempt
import KnowledgeGraph.Proofs.Except
import KnowledgeGraph.Proofs.Table
import KnowledgeGraph.Proofs.Value
import Mathlib.Data.List.Perm.Subperm

/-!
# Numbers in ids

An id in the generated form may spell a number with more digits than are read (`OverLimit`). It is
the only id that stops the search for the next number after an import (`nextAfter_eq_error`). The
search for a free number ends, and finds the first one from the counter on (`freeNumber_spec`); only
numbers that are too long to be written stop a new id (`newId_error`).
-/

namespace KnowledgeGraph.Store

open Attempt

variable {s : Store} {n : Nat}

/-- The id has the form of a generated one, but more digits than are read. -/
def OverLimit (id : Scalar) : Prop := ∃ ds, generatedDigits? id = some ds ∧ digitLimit < ds.length

/-! ## After an import -/

theorem readNumber_eq_error {ds : List Char} {f : Fault} :
    readNumber ds = .error f ↔ f = .tooManyDigits ∧ digitLimit < ds.length := by
  unfold readNumber
  split
  · rename_i h
    simp [h, eq_comm]
  · rename_i h
    simp [h]

theorem nextAfter_eq_ok {ids : List Scalar} (h : ∀ id ∈ ids, ¬ OverLimit id) :
    ∃ next, nextAfter ids = .ok next := by
  have hread : ∀ ds ∈ ids.filterMap generatedDigits?, readNumber ds = .ok (Text.number ds) := by
    intro ds hds
    obtain ⟨id, hid, hgen⟩ := List.mem_filterMap.1 hds
    have hshort : ¬ digitLimit < ds.length := fun hlong => h id hid ⟨ds, hgen, hlong⟩
    unfold readNumber
    rw [if_neg hshort]
  unfold nextAfter
  rw [Except.mapM_of_forall hread]
  exact ⟨_, rfl⟩

/-- The search for the next number stops only at an id that is over the limit. -/
theorem nextAfter_eq_error {ids : List Scalar} {f : Fault} (h : nextAfter ids = .error f) :
    f = .tooManyDigits ∧ ∃ id ∈ ids, OverLimit id := by
  unfold nextAfter at h
  cases hm : (ids.filterMap generatedDigits?).mapM readNumber with
  | ok ns => rw [hm] at h; cases h
  | error e =>
    rw [hm, Except.error_bind, Except.error.injEq] at h
    obtain ⟨ds, hds, hread⟩ := Except.mapM_eq_error hm
    obtain ⟨id, hid, hgen⟩ := List.mem_filterMap.1 hds
    obtain ⟨he, hlong⟩ := readNumber_eq_error.1 hread
    exact ⟨h ▸ he, id, hid, ds, hgen, hlong⟩

/-- The next number after an import is found exactly when no id is over the limit. -/
theorem nextAfter_stops_iff {ids : List Scalar} :
    nextAfter ids = .error .tooManyDigits ↔ ∃ id ∈ ids, OverLimit id := by
  constructor
  · exact fun h => (nextAfter_eq_error h).2
  · rintro ⟨id, hid, hlong⟩
    cases h : nextAfter ids with
    | error f => rw [(nextAfter_eq_error h).1]
    | ok next =>
      obtain ⟨ds, hgen, hlong⟩ := hlong
      unfold nextAfter at h
      obtain ⟨ns, hns, -⟩ := Except.bind_eq_ok.1 h
      obtain ⟨n, hn⟩ := Except.exists_of_mapM_eq_ok hns (List.mem_filterMap.2 ⟨id, hid, hgen⟩)
      rw [readNumber_eq_error.2 ⟨rfl, hlong⟩] at hn
      cases hn

/-! ## The next free number -/

theorem generatedId_injective : Function.Injective generatedId := by
  intro m n h
  unfold generatedId at h
  rw [String.append_right_inj] at h
  exact toString_injective h

/-- A generated id is taken when an atom stands under it. -/
def IsTaken (s : Store) (n : Nat) : Prop := s.atoms.has (.text (generatedId n)) = true

theorem isTaken_iff : s.IsTaken n ↔ Scalar.text (generatedId n) ∈ s.atoms.keys :=
  Table.has_eq_true (Key.sharp_text _)

theorem exists_not_isTaken (s : Store) :
    ∃ n ∈ List.range' s.next (s.atoms.length + 1), ¬ s.IsTaken n := by
  by_contra hall
  simp only [not_exists, not_and, not_not] at hall
  have hinjective : Function.Injective fun n => Scalar.text (generatedId n) :=
    fun m n h => generatedId_injective (Scalar.text.inj h)
  have hnodup : ((List.range' s.next (s.atoms.length + 1)).map
      fun n => Scalar.text (generatedId n)).Nodup := (List.nodup_range' 1).map hinjective
  have hsubset : ((List.range' s.next (s.atoms.length + 1)).map
      fun n => Scalar.text (generatedId n)) ⊆ s.atoms.keys := by
    intro k hk
    obtain ⟨n, hn, rfl⟩ := List.mem_map.1 hk
    exact isTaken_iff.1 (hall n hn)
  have hlength := (List.subperm_of_subset hnodup hsubset).length_le
  unfold Table.keys at hlength
  simp only [List.length_map, List.length_range'] at hlength
  omega

/-- The free number is the first one from the counter on that is not taken. -/
theorem freeNumber_spec (s : Store) :
    s.next ≤ s.freeNumber ∧ ¬ s.IsTaken s.freeNumber ∧
      ∀ m, s.next ≤ m → m < s.freeNumber → s.IsTaken m := by
  obtain ⟨n, hn, hfree⟩ := exists_not_isTaken s
  unfold freeNumber
  cases hfound : (List.range' s.next (s.atoms.length + 1)).find? fun n =>
      !s.atoms.has (.text (generatedId n)) with
  | none =>
    rw [List.find?_eq_none] at hfound
    exact absurd (by simpa [IsTaken] using hfound n hn) hfree
  | some m =>
    obtain ⟨hm, hrange, hbelow⟩ := List.find?_range'_eq_some.1 hfound
    refine ⟨(List.mem_range'_1.1 hrange).1, ?_, fun k hk hlt => ?_⟩
    · simpa [IsTaken] using hm
    · simpa [IsTaken] using hbelow k hk hlt

theorem freeNumber_not_mem (s : Store) : Scalar.text (generatedId s.freeNumber) ∉ s.atoms.keys :=
  fun hmem => (freeNumber_spec s).2.1 (isTaken_iff.2 hmem)

/-! ## New ids -/

theorem newId_eq (s : Store) : newId.runOn s =
    if s.freeNumber < numberLimit then
      (.ok (generatedId s.freeNumber), { s with next := s.freeNumber + 1 })
    else (.error .tooManyDigits, { s with next := max s.next numberLimit }) := by
  unfold newId
  simp only [runOn_bind, runOn_get]
  split
  · simp only [runOn_bind, runOn_set, runOn_pure]
  · simp only [runOn_bind, runOn_set, runOn_throw]

/-- A new id is refused only when the numbers that can be written are used up. -/
theorem newId_error {t : Store} {f : Fault} (h : newId.runOn s = (.error f, t)) :
    f = .tooManyDigits ∧ numberLimit ≤ s.freeNumber := by
  rw [newId_eq] at h
  split at h
  · cases h
  · rename_i hfull
    cases h
    exact ⟨rfl, Nat.not_lt.1 hfull⟩

end KnowledgeGraph.Store
