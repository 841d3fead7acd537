import KnowledgeGraph.Store.Command
import KnowledgeGraph.Proofs.Store.Numbers

/-!
# Refused calls

A call of the store that stops at a fault leaves the atoms, their order, all their fields and the
counter of the generated ids as they were (`perform_refused`). The one exception is the limit on the
digits of a whole number: once it is met by the number in an id, the call has begun its work
(`MeetsLimit`).
-/

namespace KnowledgeGraph.Store

open Attempt

variable {s t : Store} {f : Fault}

/-- A call that stops at the limit on the digits of a number in an id: adding an atom when the
numbers that can be written are used up, or importing an id with more digits than are read. -/
def MeetsLimit (s : Store) : Command → Prop
  | .add record =>
    ∃ a, Atom.ofRecord record = .ok a ∧ a.id.isAbsent = true ∧ numberLimit ≤ s.freeNumber
  | .importText data => ∃ atoms, readImport data = .ok atoms ∧ ∃ id ∈ atoms.keys, OverLimit id
  | _ => False

/-! ## Single operations -/

/-- An atom with an id of its own is stored under it. If another atom is replaced, the message that
says so names the id, which stops at a number with too many digits. -/
theorem add_of_id {a : Atom} (h : a.id.isAbsent = false) : (add a).runOn s =
    match a.id.toKey with
    | .error f => (.error f, s)
    | .ok key =>
      if s.atoms.has key && !a.id.isWritable then (.error .tooManyDigits, s)
      else (.ok a.id, { s with atoms := s.atoms.put key a }) := by
  unfold add Value.mention
  rw [if_neg (by rw [h]; exact Bool.false_ne_true), runOn_bind, runOn_lift]
  cases a.id.toKey with
  | error f => rfl
  | ok key =>
    dsimp only
    rw [runOn_bind, runOn_get]
    dsimp only
    cases s.atoms.has key with
    | false => rfl
    | true =>
      rw [if_pos rfl, runOn_bind, runOn_lift, List.all_cons, List.all_nil]
      cases a.id.isWritable <;> rfl

/-- An atom with an id of its own is refused before anything is stored. -/
theorem add_error {a : Atom} (h : (add a).runOn s = (.error f, t)) :
    t = s ∨ f = .tooManyDigits ∧ a.id.isAbsent = true ∧ numberLimit ≤ s.freeNumber := by
  cases habsent : a.id.isAbsent with
  | true =>
    unfold add at h
    rw [if_pos habsent, runOn_bind] at h
    rcases hid : newId.runOn s with ⟨e | id, u⟩
    · simp only [hid, Prod.mk.injEq, Except.error.injEq] at h
      obtain ⟨hf, hfull⟩ := newId_error hid
      exact .inr ⟨h.1 ▸ hf, rfl, hfull⟩
    · simp only [hid, runOn_bind, runOn_modify, runOn_pure, Prod.mk.injEq, reduceCtorEq,
        false_and] at h
  | false =>
    rw [add_of_id habsent] at h
    left
    split at h
    · exact (congrArg Prod.snd h).symm
    · split at h
      · exact (congrArg Prod.snd h).symm
      · cases h

theorem addRecord_error {record : Value} (h : (addRecord record).runOn s = (.error f, t)) :
    t = s ∨ f = .tooManyDigits ∧ MeetsLimit s (.add record) := by
  unfold addRecord at h
  split at h
  · obtain rfl | ⟨a, ha, h⟩ := lift_bind_error h
    · exact .inl rfl
    · rcases add_error h with rfl | ⟨hf, habsent, hfull⟩
      · exact .inl rfl
      · exact .inr ⟨hf, a, ha, habsent, hfull⟩
  · rw [runOn_throw, Prod.mk.injEq] at h
    exact .inl h.2.symm

theorem remove_error {id : Value} (h : (remove id).runOn s = (.error f, t)) : t = s := by
  unfold remove at h
  rw [runOn_bind, runOn_get] at h
  dsimp only at h
  split at h
  · cases h
  · obtain rfl | ⟨key, -, h⟩ := lift_bind_error h
    · rfl
    · split at h <;> cases h

/-- All fields of an update are read before the changed atom is stored. -/
theorem update_error {id updates : Value} (h : (update id updates).runOn s = (.error f, t)) :
    t = s := by
  unfold update at h
  obtain rfl | ⟨key, -, h⟩ := lift_bind_error h
  · rfl
  rw [runOn_bind, runOn_get] at h
  dsimp only at h
  split at h
  · cases h
  · obtain rfl | ⟨es, -, h⟩ := lift_bind_error h
    · rfl
    obtain rfl | ⟨a, -, h⟩ := lift_bind_error h
    · rfl
    cases h

/-- The whole text is read and checked before the atoms are replaced; only the numbers in the ids
are read after that. -/
theorem importText_error {data : Value} (h : (importText data).runOn s = (.error f, t)) :
    t = s ∨ f = .tooManyDigits ∧ MeetsLimit s (.importText data) := by
  unfold importText at h
  obtain rfl | ⟨atoms, hatoms, h⟩ := lift_bind_error h
  · exact .inl rfl
  simp only [runOn_bind, runOn_lift, runOn_modify] at h
  cases hnext : nextAfter atoms.keys with
  | error e =>
    simp only [hnext, Prod.mk.injEq, Except.error.injEq] at h
    obtain ⟨he, hlong⟩ := nextAfter_eq_error hnext
    exact .inr ⟨h.1 ▸ he, atoms, hatoms, hlong⟩
  | ok next => simp only [hnext, runOn_pure, Prod.mk.injEq, reduceCtorEq, false_and] at h

/-! ## All calls -/

theorem read_error {α : Type} {look : Store → Except Fault α} {write : α → Except Fault Value}
    (h : (do write (← look (← MonadState.get)) : Attempt Store Value).runOn s = (.error f, t)) :
    t = s := by
  rw [runOn_bind, runOn_get] at h
  obtain rfl | ⟨a, -, h⟩ := lift_bind_error h
  · rfl
  · exact (congrArg Prod.snd h).symm

/-- **Refused calls.** A call other than the round trip, which is made of three, that stops at a
fault leaves the store as it was, unless it stops at the limit on the digits of a number. -/
theorem perform_refused {c : Command} (hc : c ≠ .roundTrip)
    (h : (perform c).runOn s = (.error f, t)) :
    t = s ∨ f = .tooManyDigits ∧ MeetsLimit s c := by
  cases c with
  | add record => exact addRecord_error h
  | get id => exact .inl (read_error h)
  | query pattern => exact .inl (read_error h)
  | all => exact .inl (congrArg Prod.snd h).symm
  | remove id => exact .inl (remove_error (bind_pure_error h))
  | update id updates => exact .inl (update_error (bind_pure_error h))
  | size => cases h
  | clear => cases h
  | exportText =>
    unfold perform at h
    rw [runOn_bind, runOn_get] at h
    obtain rfl | ⟨text, -, h⟩ := lift_bind_error h
    · exact .inl rfl
    · cases h
  | importText data => exact importText_error (bind_pure_error h)
  | roundTrip => exact absurd rfl hc

/-- An update whose second field is malformed does not change the name, which comes first. -/
theorem perform_refused_update :
    let s : Store := { atoms := [(.text "a", .make .conceptNode (.text "first") none [] [])] }
    let c : Command :=
      .update (.text "a") (.record [("name", .text "second"), ("outgoing", .list [.record []])])
    ((perform c).runOn s).1 = .error .typeNotText ∧ ((perform c).runOn s).2 = s := by
  intro s c
  have h : (perform c).runOn s = (.error .typeNotText, ((perform c).runOn s).2) := rfl
  have hc : c ≠ .roundTrip := nofun
  obtain hs | ⟨hf, -⟩ := perform_refused hc h
  · exact ⟨rfl, hs⟩
  · cases hf

end KnowledgeGraph.Store
