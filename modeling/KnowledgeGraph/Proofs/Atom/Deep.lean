import KnowledgeGraph.Atom.Record
import KnowledgeGraph.Proofs.Except
import KnowledgeGraph.Proofs.Number
import KnowledgeGraph.Proofs.Table

/-!
# Atoms that are atoms all the way down

`Atom.Deep held P a` says that `P` holds of the atom `a`, of the atoms it holds, of those that they
hold and so on, and that no value stands in the place of an atom. The atoms that are read from
records are of this kind, and everything in them has its type (`ofRecord_deep`).
-/

namespace KnowledgeGraph

/-! ## Slots -/

/-- A slot that is empty, or holds a thing of its type with a property. -/
inductive Slot.Fits {α : Type} (P : α → Prop) : Slot α → Prop
  | empty : Fits P .empty
  | known {a : α} (h : P a) : Fits P (.known a)

theorem Slot.Fits.exists_known {α : Type} {P : α → Prop} {s : Slot α} (h : s.Fits P)
    (hs : s.isEmpty = false) : ∃ a, s = .known a := by
  cases h with
  | empty => cases hs
  | known => exact ⟨_, rfl⟩

/-- What a reader puts into a slot has the property of what it reads. -/
theorem Slot.read_fits {α : Type} {P : α → Prop} {reader : Value → Except Fault α} {v : Value}
    {s : Slot α} (hreader : ∀ a, reader v = .ok a → P a) (h : Slot.read reader v = .ok s) :
    s.Fits P := by
  unfold Slot.read at h
  split at h
  · cases h
    exact .empty
  · obtain ⟨a, ha, h⟩ := Except.bind_eq_ok.1 h
    cases h
    exact .known (hreader a ha)

theorem Slot.mem_knowns {α : Type} {slots : List (Slot α)} {a : α} :
    a ∈ Slot.knowns slots ↔ .known a ∈ slots := by
  unfold Slot.knowns
  rw [List.mem_filterMap]
  constructor
  · rintro ⟨slot, hslot, h⟩
    cases slot with
    | known b => exact Option.some.inj h ▸ hslot
    | raw v => cases h
  · exact fun h => ⟨_, h, rfl⟩

/-! ## Truth values -/

/-- Both numbers of a truth value are in the unit interval. -/
def TruthValue.IsClamped (t : TruthValue) : Prop := TruthValue.of t.strength t.confidence = t

theorem TruthValue.of_isClamped (x y : Float) : (TruthValue.of x y).IsClamped := by
  unfold TruthValue.IsClamped TruthValue.of
  rw [clampUnit_clampUnit, clampUnit_clampUnit]

theorem TruthValue.ofValue_isClamped {v : Value} {t : TruthValue}
    (h : TruthValue.ofValue v = .ok t) : t.IsClamped := by
  unfold TruthValue.ofValue at h
  obtain ⟨_, -, h⟩ := Except.bind_eq_ok.1 h
  obtain ⟨_, -, h⟩ := Except.bind_eq_ok.1 h
  obtain ⟨_, -, h⟩ := Except.bind_eq_ok.1 h
  obtain ⟨_, -, h⟩ := Except.bind_eq_ok.1 h
  cases h
  exact of_isClamped _ _

namespace Atom

/-! ## Depth -/

/-- A property of an atom and, at every depth, of the atoms that it holds; no value stands in the
place of one. -/
inductive Deep (held : Atom → List (Slot Atom)) (P : Atom → Prop) : Atom → Prop
  | intro {a : Atom} (here : P a) (slots : ∀ m ∈ held a, ∃ b, m = .known b)
    (atoms : ∀ b, .known b ∈ held a → Deep held P b) : Deep held P a

section

variable {held : Atom → List (Slot Atom)} {P : Atom → Prop} {a b : Atom}

theorem Deep.here (h : a.Deep held P) : P a := by
  cases h with
  | intro here _ _ => exact here

theorem Deep.slot (h : a.Deep held P) {m : Slot Atom} (hm : m ∈ held a) : ∃ b, m = .known b := by
  cases h with
  | intro _ slots _ => exact slots m hm

theorem Deep.atom (h : a.Deep held P) (hb : .known b ∈ held a) : b.Deep held P := by
  cases h with
  | intro _ _ atoms => exact atoms b hb

theorem Deep.member (h : a.Deep held P) {m : Slot Atom} (hm : m ∈ held a) :
    ∃ b, m = .known b ∧ b.Deep held P := by
  obtain ⟨b, rfl⟩ := h.slot hm
  exact ⟨b, rfl, h.atom hm⟩

theorem Deep.imp {Q : Atom → Prop} (h : a.Deep held P) (hPQ : ∀ b, P b → Q b) : a.Deep held Q := by
  induction h with
  | intro here slots _ ih => exact .intro (hPQ _ here) slots ih

theorem Deep.deep (h : a.Deep held P) : a.Deep held fun b => b.Deep held P := by
  induction h with
  | intro here slots atoms ih => exact .intro (.intro here slots atoms) slots ih

theorem Deep.of_members (here : P a) (hm : ∀ m ∈ held a, ∃ b, m = .known b ∧ b.Deep held P) :
    a.Deep held P := by
  refine .intro here (fun m h => (hm m h).imp fun _ hb => hb.1) fun b hb => ?_
  obtain ⟨c, hc, hdeep⟩ := hm _ hb
  cases hc
  exact hdeep

end

/-! ## Reading -/

def members (a : Atom) : List (Slot Atom) := a.outgoing ++ a.incoming

/-- The type, the truth and the attention of an atom are of their types. -/
structure WellTyped (a : Atom) : Prop where
  type : ∃ s, a.type = .text s
  truth : a.truth.Fits TruthValue.IsClamped
  attention : a.attention.Fits fun _ => True

theorem checkRecord_eq_ok {es : Entries} {type : Value} {metadata : Entries}
    (h : checkRecord es = .ok (type, metadata)) : (∃ s, type = .text s) ∧
      ((Entries.get? es "metadata").getD .null).orElse (.map []) = .map metadata := by
  unfold checkRecord at h
  split at h
  · split at h
    · rename_i hmetadata
      cases h
      exact ⟨⟨_, rfl⟩, hmetadata⟩
    · cases h
  · cases h

theorem ofMembers_eq_ok {v : Value} {bs : List Atom} (h : ofMembers v = .ok bs) :
    bs = [] ∨ ∃ items, v = .list items ∧ ofItems items = .ok bs := by
  unfold ofMembers at h
  split at h
  · exact .inr ⟨_, rfl, h⟩
  · split at h <;> cases h
    exact .inl rfl
  · split at h <;> cases h
    exact .inl rfl
  · cases h
    exact .inl rfl
  · cases h

theorem ofRecord_fields {es : Entries} {a : Atom} (h : ofRecord (.map es) = .ok a) :
    a.WellTyped ∧ a.name = (Entries.get? es "name").getD .null ∧
      a.id = (Entries.get? es "id").getD .null ∧ checkRecord es = .ok (a.type, a.metadata) ∧
      (∃ bs, fieldAtoms "outgoing" es = .ok bs ∧ a.outgoing = bs.map .known) ∧
      ∃ bs, fieldAtoms "incoming" es = .ok bs ∧ a.incoming = bs.map .known := by
  rw [ofRecord] at h
  obtain ⟨⟨type, metadata⟩, hcheck, h⟩ := Except.bind_eq_ok.1 h
  obtain ⟨truth, htruth, h⟩ := Except.bind_eq_ok.1 h
  obtain ⟨attention, hattention, h⟩ := Except.bind_eq_ok.1 h
  obtain ⟨outgoing, hout, h⟩ := Except.bind_eq_ok.1 h
  obtain ⟨incoming, hin, h⟩ := Except.bind_eq_ok.1 h
  cases h
  refine ⟨⟨(checkRecord_eq_ok hcheck).1, ?_, ?_⟩, rfl, rfl, hcheck, ⟨outgoing, hout, rfl⟩,
    incoming, hin, rfl⟩
  · exact Slot.read_fits (fun _ => TruthValue.ofValue_isClamped) htruth
  · exact Slot.read_fits (fun _ _ => trivial) hattention

/-- The entries are those of the record, or of a record that it holds at some depth. -/
inductive Nested : Value → Entries → Prop
  | here (es : Entries) : Nested (.map es) es
  | held {es : Entries} {name : String} {items : List Value} {v : Value} {fs : Entries}
    (hname : name ∈ ["outgoing", "incoming"]) (hitems : Entries.get? es name = some (.list items))
    (hv : v ∈ items) (h : Nested v fs) : Nested (.map es) fs

/-- The atom is read from the record, or from one that it holds at some depth. -/
def ReadIn (v : Value) (a : Atom) : Prop := ∃ es, Nested v es ∧ ofRecord (.map es) = .ok a

theorem ReadIn.held {a : Atom} {es : Entries} {name : String} {items : List Value} {v : Value}
    (h : ReadIn v a) (hname : name ∈ ["outgoing", "incoming"])
    (hitems : Entries.get? es name = some (.list items)) (hv : v ∈ items) : ReadIn (.map es) a :=
  h.imp fun _ hread => hread.imp_left fun hnested => hnested.held hname hitems hv

mutual

theorem ofRecord_deep_readIn : ∀ {v : Value} {a : Atom},
    ofRecord v = .ok a → a.Deep members (ReadIn v)
  | .map es, a, h => by
    obtain ⟨-, -, -, -, ⟨outgoing, hout, houts⟩, incoming, hin, hins⟩ := ofRecord_fields h
    have hheld {name : String} {bs : List Atom} (hname : name ∈ ["outgoing", "incoming"])
        (hbs : fieldAtoms name es = .ok bs) : ∀ b ∈ bs, b.Deep members (ReadIn (.map es)) := by
      intro b hb
      obtain ⟨items, v, hitems, hv, hdeep⟩ := fieldAtoms_deep_readIn hbs b hb
      exact hdeep.imp fun _ hread => hread.held hname hitems hv
    refine .of_members ⟨es, .here es, h⟩ fun m hm => ?_
    unfold members at hm
    rw [houts, hins, ← List.map_append] at hm
    obtain ⟨b, hb, rfl⟩ := List.mem_map.1 hm
    refine ⟨b, rfl, (List.mem_append.1 hb).elim (hheld ?_ hout b) (hheld ?_ hin b)⟩
    · exact List.mem_cons_self
    · exact List.mem_cons_of_mem _ List.mem_cons_self
  | .scalar s, a, h => by
    unfold ofRecord at h
    cases h
  | .list items, a, h => by
    unfold ofRecord at h
    cases h

theorem fieldAtoms_deep_readIn : ∀ {name : String} {es : List (Scalar × Value)} {bs : List Atom},
    fieldAtoms name es = .ok bs → ∀ b ∈ bs, ∃ items v,
      Entries.get? es name = some (.list items) ∧ v ∈ items ∧ b.Deep members (ReadIn v)
  | _, [], bs, h => by
    rw [fieldAtoms] at h
    cases h
    exact nofun
  | name, (k, v) :: es, bs, h => by
    have hget : Entries.get? ((k, v) :: es) name =
        if k.same (.text name) then some v else Entries.get? es name :=
      Table.lookup?_cons (k, v) es _
    rw [fieldAtoms] at h
    rw [hget]
    by_cases hsame : k.same (.text name) = true
    · rw [if_pos hsame] at h ⊢
      intro b hb
      obtain ⟨items, w, rfl, hw, hdeep⟩ := ofMembers_deep_readIn h b hb
      exact ⟨items, w, rfl, hw, hdeep⟩
    · rw [if_neg hsame] at h ⊢
      exact fieldAtoms_deep_readIn h

theorem ofMembers_deep_readIn : ∀ {v : Value} {bs : List Atom}, ofMembers v = .ok bs →
    ∀ b ∈ bs, ∃ items w, v = .list items ∧ w ∈ items ∧ b.Deep members (ReadIn w)
  | .list items, bs, h => by
    rw [ofMembers] at h
    intro b hb
    obtain ⟨w, hw, hdeep⟩ := ofItems_deep_readIn h b hb
    exact ⟨items, w, rfl, hw, hdeep⟩
  | .scalar s, bs, h => by
    obtain rfl | ⟨_, hv, -⟩ := ofMembers_eq_ok h
    · exact nofun
    · cases hv
  | .map es, bs, h => by
    obtain rfl | ⟨_, hv, -⟩ := ofMembers_eq_ok h
    · exact nofun
    · cases hv

theorem ofItems_deep_readIn : ∀ {items : List Value} {bs : List Atom}, ofItems items = .ok bs →
    ∀ b ∈ bs, ∃ v ∈ items, b.Deep members (ReadIn v)
  | [], bs, h => by
    rw [ofItems] at h
    cases h
    exact nofun
  | v :: vs, bs, h => by
    rw [ofItems] at h
    obtain ⟨a, ha, h⟩ := Except.bind_eq_ok.1 h
    obtain ⟨rest, hrest, h⟩ := Except.bind_eq_ok.1 h
    cases h
    rintro b (_ | ⟨_, hb⟩)
    · exact ⟨v, List.mem_cons_self, ofRecord_deep_readIn ha⟩
    · obtain ⟨w, hw, hdeep⟩ := ofItems_deep_readIn hrest b hb
      exact ⟨w, List.mem_cons_of_mem v hw, hdeep⟩

end

/-- **Records.** The atom of a record is made of atoms whose fields have their types, at every
depth. -/
theorem ofRecord_deep {v : Value} {a : Atom} (h : ofRecord v = .ok a) :
    a.Deep members WellTyped :=
  (ofRecord_deep_readIn h).imp fun _ hread => hread.elim fun _ hb => (ofRecord_fields hb.2).1

end Atom

end KnowledgeGraph
