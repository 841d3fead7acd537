import KnowledgeGraph.Proofs.Atom.Faults
import KnowledgeGraph.Proofs.Json.Reading
import KnowledgeGraph.Proofs.Store.Fresh
import KnowledgeGraph.Proofs.Value

/-!
# What an import does

An import takes over the atoms of all records of its text, or it is refused and the store stays as
it was. There are two exceptions. A record that stops at a fault that is not expected of records
stops the import at this fault (`StopsAt`). And a number in an id that has more digits than are read
is found when the atoms are replaced already. `import_outcome` says which of these it is.
-/

namespace KnowledgeGraph.Store

variable {n : Nat} {record data : Value} {records items : List Value} {e : Scalar × Atom}
  {es : Table Scalar Atom} {f : Fault}

/-! ## Records -/

/-- The head of the record is in order: it is a map with the fields of atom records and no others,
and has a text that is not empty for its id. -/
def IsHeaded (record : Value) (id : String) : Prop :=
  ∃ fields, record = .map fields ∧
    (∀ k ∈ Table.keys fields, ∃ name ∈ recordFields, k = .text name) ∧
    Entries.get? fields "id" = some (.text id) ∧ id ≠ ""

/-- The record gives an atom, under the id of the record. -/
def Imports (record : Value) (e : Scalar × Atom) : Prop :=
  ∃ id, IsHeaded record id ∧ e.1 = .text id ∧ Atom.ofRecord record = .ok e.2

/-- The record passes the checks on its head, and its fields stop at a fault that is not expected of
records. -/
def Escapes (record : Value) (f : Fault) : Prop :=
  ∃ id, IsHeaded record id ∧ Atom.ofRecord record = .error f ∧ f.isMalformed = false

theorem extra_isEmpty_iff {fields : Entries} :
    ((Table.keys fields).filter fun k => !(k.text?.any recordFields.contains)).isEmpty = true ↔
      ∀ k ∈ Table.keys fields, ∃ name ∈ recordFields, k = .text name := by
  rw [List.isEmpty_iff, List.filter_eq_nil_iff]
  refine forall₂_congr fun k _ => ?_
  cases k <;> simp [Scalar.text?]

/-- A record whose head is in order comes out as its fields do. -/
theorem importRecord_of_headed {id : String} (h : IsHeaded record id) :
    importRecord n record = match Atom.ofRecord record with
      | .ok a => .ok (.text id, a)
      | .error f => if f.isMalformed then .error (.importRefused (.malformed n f)) else .error f := by
  obtain ⟨fields, rfl, hknown, hid, hne⟩ := h
  unfold importRecord
  have hempty : id.isEmpty = false := by simpa using hne
  simp only [extra_isEmpty_iff.2 hknown, hid, hempty, Bool.not_true, Bool.false_eq_true, if_false]
  rfl

/-- Any other record is refused, where its fields have texts for names. -/
theorem importRecord_of_not_headed (hjson : record.IsJson)
    (h : ∀ id, ¬ IsHeaded record id) :
    ∃ cause, importRecord n record = .error (.importRefused cause) := by
  cases record with
  | scalar _ | list _ => exact ⟨_, rfl⟩
  | map fields =>
    unfold importRecord
    dsimp only
    split
    · have htext : ∀ k ∈ (Table.keys fields).filter fun k => !(k.text?.any recordFields.contains),
          ∃ s, k = .text s := by
        intro k hk
        obtain ⟨e, he, rfl⟩ := List.mem_map.1 (List.mem_filter.1 hk).1
        exact hjson.textKeys e he
      obtain ⟨names, hnames⟩ : Except.Returns (sortKeys _) := sortByKey_of_text htext
      rw [hnames]
      exact ⟨_, rfl⟩
    · rename_i hknown
      rw [Bool.not_eq_true, Bool.not_eq_false', extra_isEmpty_iff] at hknown
      split
      · rename_i id hid
        split
        · exact ⟨_, rfl⟩
        · rename_i hne
          refine absurd ⟨fields, rfl, hknown, hid, ?_⟩ (h id)
          simpa using hne
      · exact ⟨_, rfl⟩

theorem importRecord_of_imports (h : Imports record e) : importRecord n record = .ok e := by
  obtain ⟨id, hhead, hid, hatom⟩ := h
  rw [importRecord_of_headed hhead, hatom, ← hid]

theorem importRecord_of_escapes (h : Escapes record f) : importRecord n record = .error f := by
  obtain ⟨id, hhead, hatom, hf⟩ := h
  rw [importRecord_of_headed hhead, hatom]
  simp only [hf, Bool.false_eq_true, if_false]

/-- **One record.** It is imported, or it is refused, or it stops at a fault that is not expected of
records. -/
theorem importRecord_cases (hjson : record.IsJson) :
    (∃ e, Imports record e) ∨ (∃ f, Escapes record f) ∨
      ∃ cause, importRecord n record = .error (.importRefused cause) := by
  by_cases hhead : ∃ id, IsHeaded record id
  · obtain ⟨id, hhead⟩ := hhead
    cases hatom : Atom.ofRecord record with
    | ok a => exact .inl ⟨(.text id, a), id, hhead, rfl, hatom⟩
    | error f =>
      cases hf : f.isMalformed with
      | false => exact .inr (.inl ⟨f, id, hhead, hatom, hf⟩)
      | true =>
        refine .inr (.inr ⟨.malformed n f, ?_⟩)
        rw [importRecord_of_headed hhead, hatom]
        simp only [hf, if_true]
  · exact .inr (.inr (importRecord_of_not_headed hjson (not_exists.1 hhead)))

/-! ## Lists of records -/

/-- The first record of the list that is not imported stops at a fault that is not expected of
records. -/
inductive StopsAt (f : Fault) : List Value → Prop
  | here {record : Value} {rest : List Value} (h : Escapes record f) : StopsAt f (record :: rest)
  | later {record : Value} {rest : List Value} {e : Scalar × Atom} (h : Imports record e)
    (hrest : StopsAt f rest) : StopsAt f (record :: rest)

theorem importRecords_of_imports (h : List.Forall₂ Imports records es) :
    importRecords n records = .ok es := by
  induction h generalizing n with
  | nil => rfl
  | cons he _ ih =>
    rw [importRecords, importRecord_of_imports he, Except.ok_bind, ih]
    rfl

theorem importRecords_of_stopsAt (h : StopsAt f records) : importRecords n records = .error f := by
  induction h generalizing n with
  | here h => rw [importRecords, importRecord_of_escapes h, Except.error_bind]
  | later h _ ih =>
    rw [importRecords, importRecord_of_imports h, Except.ok_bind, ih, Except.error_bind]

/-- **Lists.** The records are imported, or they are refused, or one of them stops at a fault that
is not expected. -/
theorem importRecords_cases (hjson : ∀ record ∈ records, record.IsJson) :
    (∃ es, List.Forall₂ Imports records es) ∨ (∃ f, StopsAt f records) ∨
      ∃ cause, importRecords n records = .error (.importRefused cause) := by
  induction records generalizing n with
  | nil => exact .inl ⟨[], .nil⟩
  | cons record rest ih =>
    obtain ⟨hrecord, hrest⟩ := List.forall_mem_cons.1 hjson
    obtain ⟨e, he⟩ | ⟨f, hf⟩ | ⟨cause, hcause⟩ := importRecord_cases (n := n) hrecord
    · obtain ⟨es, hes⟩ | ⟨f, hf⟩ | ⟨cause, hcause⟩ := ih (n := n + 1) hrest
      · exact .inl ⟨e :: es, .cons he hes⟩
      · exact .inr (.inl ⟨f, .later he hf⟩)
      · refine .inr (.inr ⟨cause, ?_⟩)
        rw [importRecords, importRecord_of_imports he, Except.ok_bind, hcause, Except.error_bind]
    · exact .inr (.inl ⟨f, .here hf⟩)
    · refine .inr (.inr ⟨cause, ?_⟩)
      rw [importRecords, hcause, Except.error_bind]

/-- The record that stops an import has, in its own fields or in those of a record that it holds at
some depth, an attention value that is no map, or a number beyond the range of floats. -/
theorem StopsAt.unexpected (h : StopsAt f records) :
    ∃ record ∈ records, ∃ fields, Atom.Nested record fields ∧ Atom.IsUnexpected f fields := by
  induction h with
  | @here record rest h =>
    obtain ⟨_, -, hatom, hf⟩ := h
    obtain hmalformed | hfields := Atom.ofRecord_failsWith record f hatom
    · rw [hf] at hmalformed
      cases hmalformed
    · exact ⟨record, List.mem_cons_self, hfields⟩
  | later _ _ ih =>
    obtain ⟨record, hmem, hfields⟩ := ih
    exact ⟨record, List.mem_cons_of_mem _ hmem, hfields⟩

/-! ## Texts -/

/-- The value is a text that holds a list of items. -/
def Holds (data : Value) (items : List Value) : Prop :=
  data.text?.bind Json.read? = some (.list items)

theorem Holds.isJson (h : Holds data items) : ∀ item ∈ items, item.IsJson := by
  obtain ⟨s, -, hread⟩ := Option.bind_eq_some_iff.1 h
  exact fun _ => (Json.read?_isRead hread).wellKeyed.isJson.item

theorem readImport_of_holds (h : Holds data items) :
    readImport data = (importRecords 0 items).map (Table.merge []) := by
  unfold readImport
  rw [show data.text?.bind Json.read? = _ from h]
  dsimp only
  cases importRecords 0 items <;> rfl

theorem readImport_of_imports (h : Holds data items) (hes : List.Forall₂ Imports items es) :
    readImport data = .ok (Table.merge [] es) := by
  rw [readImport_of_holds h, importRecords_of_imports hes]
  rfl

theorem readImport_of_not_holds (h : ∀ items, ¬ Holds data items) :
    ∃ cause, readImport data = .error (.importRefused cause) := by
  unfold readImport
  split
  · exact ⟨_, rfl⟩
  · rename_i items hread
    exact absurd hread (h items)
  · exact ⟨_, rfl⟩

/-! ## Imports -/

/-- Where all records are imported, the store holds their atoms, and the call returns unless an id
is over the limit. -/
theorem perform_importText_imports {s : Store} (h : Holds data items)
    (hes : List.Forall₂ Imports items es) :
    ((perform (.importText data)).runOn s).2.atoms = Table.merge [] es ∧
      (((perform (.importText data)).runOn s).1 = .ok (.count (Table.merge [] es).length) ∧
          (∀ id ∈ (Table.merge [] es).keys, ¬ OverLimit id) ∨
        ((perform (.importText data)).runOn s).1 = .error .tooManyDigits ∧
          ∃ id ∈ (Table.merge [] es).keys, OverLimit id) := by
  rw [perform_importText, readImport_of_imports h hes]
  dsimp only
  cases hnext : nextAfter (Table.merge [] es).keys with
  | error f =>
    obtain ⟨rfl, hover⟩ := nextAfter_eq_error hnext
    exact ⟨rfl, .inr ⟨rfl, hover⟩⟩
  | ok next =>
    refine ⟨rfl, .inl ⟨rfl, fun id hid hover => ?_⟩⟩
    have hstops := nextAfter_stops_iff.2 ⟨id, hid, hover⟩
    rw [hnext] at hstops
    cases hstops

theorem perform_importText_of_error {s : Store} (h : readImport data = .error f) :
    (perform (.importText data)).runOn s = (.error f, s) := by
  rw [perform_importText, h]

/-- **Imports.** Where the given value is a text that holds a list of records which all give atoms,
the store holds exactly these atoms afterwards, the last one of those with the same id; the call
returns their number, except that it stops at an id with more digits than are read. Where a record
before which all give atoms stops at a fault that is not expected of records, the call stops at this
fault, and the record has, at some depth, an attention value that is no map, or a number beyond the
range of floats in its truth or its attention value. Whatever else the value is, the import is
refused. The store stays as it was whenever not all records give atoms. -/
theorem import_outcome (data : Value) (s : Store) :
    let run := (perform (.importText data)).runOn s
    (∀ items es, Holds data items → List.Forall₂ Imports items es →
      run.2.atoms = Table.merge [] es ∧
        (run.1 = .ok (.count run.2.size) ∧ (∀ id ∈ run.2.atoms.keys, ¬ OverLimit id) ∨
          run.1 = .error .tooManyDigits ∧ ∃ id ∈ run.2.atoms.keys, OverLimit id)) ∧
    (∀ items f, Holds data items → StopsAt f items → run = (.error f, s) ∧
      ∃ record ∈ items, ∃ fields, Atom.Nested record fields ∧ Atom.IsUnexpected f fields) ∧
    ((∀ items, Holds data items →
        (¬ ∃ es, List.Forall₂ Imports items es) ∧ ¬ ∃ f, StopsAt f items) →
      ∃ cause, run = (.error (.importRefused cause), s)) := by
  intro run
  refine ⟨fun items es h hes => ?imports, fun items f h hf => ⟨?stops, hf.unexpected⟩,
    fun hother => ?refused⟩
  case imports =>
    obtain ⟨hatoms, hrun⟩ := perform_importText_imports (s := s) h hes
    unfold size
    rw [hatoms]
    exact ⟨rfl, hrun⟩
  case stops =>
    refine perform_importText_of_error ?_
    rw [readImport_of_holds h, importRecords_of_stopsAt hf]
    rfl
  case refused =>
    suffices hread : ∃ cause, readImport data = .error (.importRefused cause) by
      obtain ⟨cause, hread⟩ := hread
      exact ⟨cause, perform_importText_of_error hread⟩
    by_cases hlist : ∃ items, Holds data items
    · obtain ⟨items, hlist⟩ := hlist
      obtain ⟨himports, hstops⟩ := hother items hlist
      obtain ⟨cause, hcause⟩ :=
        ((importRecords_cases hlist.isJson).resolve_left himports).resolve_left hstops
      exact ⟨cause, by rw [readImport_of_holds hlist, hcause]; rfl⟩
    · exact readImport_of_not_holds (not_exists.1 hlist)

/-- An attention value that is a text stops the import, and not as a refusal. -/
theorem import_outcome_high :
    let data : Value :=
      .text "[\x7b\"id\": \"a\", \"type\": \"T\", \"attentionValue\": \"high\"\x7d]"
    let s : Store := { atoms := [(.text "b", .make .conceptNode (.text "b") none [] [])] }
    (perform (.importText data)).runOn s = (.error .noSuchField, s) := by
  intro data s
  let record : Value :=
    .record [("id", .text "a"), ("type", .text "T"), ("attentionValue", .text "high")]
  have hholds : Holds data [record] := by
    unfold Holds
    decide +kernel
  have hhead : IsHeaded record "a" := by
    refine ⟨_, rfl, ?_, rfl, ?_⟩
    · decide
    · decide
  have hstops : StopsAt .noSuchField [record] := .here ⟨"a", hhead, rfl, rfl⟩
  exact ((import_outcome data s).2.1 [record] .noSuchField hholds hstops).1

end KnowledgeGraph.Store
