import KnowledgeGraph.Proofs.Number.Reading
import KnowledgeGraph.Service.Body

/-!
# What passes a form

A check without problems says what the value is that was checked: for each form there is a lemma that
turns its result around, and `Body.read_eq_ok` does so for a whole body. A number that passes is the
one that the library reads, unless it is a text with underscores that do not stand between digits
(`Form.toFloat_of_number`).
-/

namespace KnowledgeGraph

/-- Whether the underscores of a value stand between digits, if it is a text. -/
def Value.isGrouped : Value → Bool
  | .text s => KnowledgeGraph.isGrouped s
  | _ => true

namespace Service

variable {α β : Type} {es : Entries} {v : Value}

/-! ## Checks -/

namespace Checked

theorem map_eq_fine {f : α → β} {c : Checked α} {b : β} :
    (f <$> c) = .fine b ↔ ∃ a, c = .fine a ∧ f a = b := by
  cases c with
  | fine a =>
    constructor
    · intro h
      cases h
      exact ⟨a, rfl, rfl⟩
    · rintro ⟨_, ⟨⟩, rfl⟩
      rfl
  | faulty problems => exact ⟨nofun, nofun⟩

theorem seq_eq_fine {f : Checked (α → β)} {c : Checked α} {b : β} :
    (f <*> c) = .fine b ↔ ∃ g a, f = .fine g ∧ c = .fine a ∧ g a = b := by
  cases f with
  | faulty problems => cases c <;> exact ⟨nofun, nofun⟩
  | fine g =>
    cases c with
    | fine a =>
      constructor
      · intro h
        cases h
        exact ⟨g, a, rfl, rfl, rfl⟩
      · rintro ⟨_, _, ⟨⟩, ⟨⟩, rfl⟩
        rfl
    | faulty problems => exact ⟨nofun, nofun⟩

theorem within_eq_fine {place : Place} {c : Checked α} {a : α} :
    c.within place = .fine a ↔ c = .fine a := by
  cases c with
  | fine b => exact Iff.rfl
  | faulty problems => exact ⟨nofun, nofun⟩

end Checked

/-! ## Forms -/

namespace Form

variable {form : Form α} {a : α}

theorem text_eq_fine {s : String} : text v = .fine s ↔ v = .text s := by
  unfold text
  split
  · rw [Checked.fine.injEq, Value.scalar.injEq, Scalar.text.injEq]
  · rename_i hother
    exact ⟨nofun, fun h => absurd h (hother s)⟩

theorem record_eq_fine {fields : Fields α} :
    record fields v = .fine a ↔ ∃ es, v = .map es ∧ fields es = .fine a := by
  unfold record
  split
  · constructor
    · exact fun h => ⟨_, rfl, h⟩
    · rintro ⟨_, ⟨⟩, h⟩
      exact h
  · rename_i hother
    constructor
    · intro h
      cases h
    · rintro ⟨es, heq, -⟩
      exact absurd heq (hother es)

theorem required_eq_fine {name : String} : required name form es = .fine a ↔
    ∃ v, Entries.get? es name = some v ∧ form v = .fine a := by
  unfold required
  cases hfound : Entries.get? es name with
  | some v =>
    constructor
    · exact fun h => ⟨v, rfl, Checked.within_eq_fine.1 h⟩
    · rintro ⟨_, ⟨⟩, h⟩
      exact Checked.within_eq_fine.2 h
  | none => exact ⟨nofun, nofun⟩

/-- A field that may be missing is as if it were given as something that passes for the default. -/
theorem defaulted_eq_fine {name : String} {default : α} (hdefault : form v = .fine default) :
    defaulted [name] default form es = .fine a ↔
      form ((Entries.get? es name).getD v) = .fine a := by
  unfold defaulted
  cases Entries.get? es name with
  | some w => exact Checked.within_eq_fine
  | none =>
    show Checked.fine default = .fine a ↔ form v = .fine a
    rw [hdefault]

theorem nullable_eq_fine {a : Option α} : nullable form v = .fine a ↔
    v = .null ∧ a = none ∨ v ≠ .null ∧ ∃ x, form v = .fine x ∧ a = some x := by
  unfold nullable
  split
  · simp [eq_comm]
  · rename_i hother
    have hne : v ≠ .null := hother
    rw [and_iff_right hne, or_iff_right fun h => hne h.1]
    exact Checked.map_eq_fine.trans (exists_congr fun x => and_congr_right fun _ => eq_comm)

theorem optional_eq_fine {name : String} {a : Option α} : optional [name] form es = .fine a ↔
    nullable form (Entries.field es name) = .fine a :=
  defaulted_eq_fine (v := .null) rfl

theorem optional_either_eq_fine {first second : String} {a : Option α} :
    optional [first, second] form es = .fine a ↔
      nullable form (Entries.either es first second) = .fine a := by
  unfold optional defaulted Entries.either
  cases Entries.get? es first with
  | some w => exact Checked.within_eq_fine
  | none => exact optional_eq_fine

/-- A number that passes is read alike, unless there are underscores in it that do not stand between
digits. -/
theorem toFloat_of_number {x : Float} (h : number v = .fine x) :
    v.toFloat = if v.isGrouped then .ok x else .error .badForm := by
  unfold number at h
  split at h
  · rename_i s
    split at h
    · rename_i y hy
      cases h
      have hgrouped : (Value.text s).isGrouped = isGrouped s := rfl
      unfold Value.toFloat Scalar.toFloat
      dsimp only
      rw [readNumber?_of_readLoose? hy, hgrouped]
      cases isGrouped s <;> rfl
    · cases h
  · rename_i hother
    have hgrouped : v.isGrouped = true := by
      unfold Value.isGrouped
      split
      · rename_i s
        exact absurd rfl (hother s)
      · rfl
    rw [hgrouped, if_pos rfl]
    split at h
    · rename_i y hy
      cases h
      exact hy
    · cases h

end Form

/-! ## Bodies -/

namespace Body

theorem read_eq_ok {form : Form α} {body : ByteArray} {a : α} (h : read form body = .ok a) :
    ∃ text v, Json.decode? body = some text ∧ Json.read text = .ok v ∧ form v = .fine a := by
  have haccept {c : Checked α} (hc : accept c = .ok a) : c = .fine a := by
    cases c with
    | fine b =>
      cases hc
      rfl
    | faulty problems => cases hc
  unfold read at h
  split at h
  · cases h
  · split at h
    · cases h
    · rename_i text htext
      split at h
      · rename_i v hv
        exact ⟨text, v, htext, hv, haccept h⟩
      · cases h
      · cases h

end Body

end Service

end KnowledgeGraph
