import KnowledgeGraph.Proofs.Store.Import

/-!
# The store as an ordered map

A store that is reached is a map from ids to atoms (`IsMap`) in the order in which the ids came in.
What a call does to the order is said by `Arranges`: a new id comes last, an id that is there keeps
its place, what is removed leaves the order of the others, and an import has each id at the place of
its first record, with the atom of the last one.
-/

namespace KnowledgeGraph.Store

variable {s : Store} {c : Command} {o : Except Fault Value} {v : Value} {k : Scalar}
  {atoms : Table Scalar Atom} {a old new : Atom}

/-! ## Places -/

/-- One atom of the list gives its place to another one; the others are the same. -/
def Replaces (xs ys : List Atom) (old new : Atom) : Prop :=
  ∃ before after, xs = before ++ old :: after ∧ ys = before ++ new :: after

/-- An atom whose id is new comes last; one whose id is there takes the place of the atom with it. -/
def Puts (xs ys : List Atom) (a : Atom) : Prop :=
  (a.id ∉ xs.map (·.id) ∧ ys = xs ++ [a]) ∨ ∃ old, old.id = a.id ∧ Replaces xs ys old a

/-- Each id of the decoded atoms is there once, at the place of the first atom with it, and with the
last atom with it. -/
structure Merges (decoded ys : List Atom) : Prop where
  ids : ys.map (·.id) = (decoded.map (·.id)).eraseDups
  last : ∀ a ∈ ys, ∃ before after, decoded = before ++ a :: after ∧ ∀ b ∈ after, b.id ≠ a.id

/-- The value is a text of records; their atoms are merged, and the answer is how many ids there
are. -/
def MergesText (data v : Value) (ys : List Atom) : Prop :=
  ∃ items decoded, Holds data items ∧
    List.Forall₂ (fun record a => Atom.ofRecord record = .ok a) items decoded ∧
    Merges decoded ys ∧ v = .count (decoded.map (·.id)).eraseDups.length

/-- What a call that comes out well does to the list of all atoms. -/
def Arranges (s : Store) (v : Value) (ys : List Atom) : Command → Prop
  | .add record => ∃ a id, Atom.ofRecord record = .ok a ∧ v = .text id ∧
      (a.id = .text id ∨ a.id.isAbsent = true ∧ .text id ∉ s.ids) ∧
      Puts s.all ys { a with id := .text id }
  | .update id updates => v = .bool false ∧ id ∉ s.ids ∧ ys = s.all ∨
      v = .bool true ∧ ∃ es old new, updates = .map es ∧ assignAll old es = .ok new ∧
        old.id = id ∧ new.id = id ∧ Replaces s.all ys old new
  | .remove id => v = .bool false ∧ id ∉ s.ids ∧ ys = s.all ∨
      v = .bool true ∧ ∃ before old after, old.id = id ∧ s.all = before ++ old :: after ∧
        ys = before ++ after
  | .clear => ys = []
  | .importText data => MergesText data v ys
  | .roundTrip => ∃ text, s.exportText = .ok text ∧ MergesText (.text text) v ys
  | .get _ | .query _ | .all | .size | .exportText => ys = s.all

theorem withId_self {id : Value} (h : a.id = id) : { a with id } = a := by
  cases a
  cases h
  rfl

theorem assign_id {field : Attribute} (h : field.assign a v = .ok new) : new.id = a.id := by
  cases field with
  | type | name =>
    cases h
    rfl
  | truth | attention | outgoing | incoming | metadata =>
    obtain ⟨_, -, h⟩ := Except.bind_eq_ok.1 h
    cases h
    rfl

theorem assignAll_id {es : List (Scalar × Value)} (h : assignAll a es = .ok new) :
    new.id = a.id := by
  induction es generalizing a with
  | nil =>
    cases h
    rfl
  | cons e rest ih =>
    rw [assignAll] at h
    split at h
    · exact ih h
    · obtain ⟨b, hb, h⟩ := Except.bind_eq_ok.1 h
      exact (ih h).trans (assign_id hb)

theorem replaces_put {id : String} (hfound : atoms.lookup? (.text id) = some old) (new : Atom) :
    Replaces atoms.values (atoms.put (.text id) new).values old new := by
  obtain ⟨before, after, hatoms, hput⟩ := Table.put_split (Key.sharp_text id) hfound new
  refine ⟨Table.values before, Table.values after, ?_, ?_⟩
  · rw [hatoms, Table.values_append]
    rfl
  · rw [hput, Table.values_append]
    rfl

theorem IsMap.puts (h : IsMap atoms) {id : String} (ha : a.id = .text id) :
    Puts atoms.values (atoms.put (.text id) a).values a := by
  cases hfound : atoms.lookup? (.text id) with
  | none =>
    have hnew := (Table.lookup?_eq_none (Key.sharp_text id)).1 hfound
    refine .inl ⟨ha ▸ h.not_mem_ids hfound, ?_⟩
    rw [Table.put_of_not_mem (Key.sharp_text id) hnew, Table.values_append]
    rfl
  | some old =>
    obtain ⟨-, hold⟩ := h.lookup?_eq_some.1 hfound
    exact .inr ⟨old, hold.trans ha.symm, replaces_put hfound a⟩

theorem IsMap.removes (h : IsMap atoms) (hfound : atoms.lookup? k = some old) :
    ∃ before after, atoms.values = before ++ old :: after ∧
      (atoms.erase k).values = before ++ after := by
  obtain ⟨hmem, id, rfl⟩ := h.textKeys.mem_of_lookup? hfound
  obtain ⟨before, after, rfl⟩ := List.append_of_mem hmem
  refine ⟨Table.values before, Table.values after, ?_, ?_⟩
  · rw [Table.values_append]
    rfl
  · rw [Table.erase_split (Key.sharp_text id) h.nodup, Table.values_append]

/-! ## Imports -/

theorem readImport_eq_ok {data : Value} (h : readImport data = .ok atoms) :
    ∃ items es, Holds data items ∧ List.Forall₂ Imports items es ∧ atoms = Table.merge [] es := by
  by_cases hlist : ∃ items, Holds data items
  · obtain ⟨items, hlist⟩ := hlist
    rw [readImport_of_holds hlist] at h
    obtain ⟨es, hes⟩ | ⟨f, hf⟩ | ⟨cause, hcause⟩ := importRecords_cases hlist.isJson
    · rw [importRecords_of_imports hes] at h
      exact ⟨items, es, hlist, hes, (Except.ok.inj h).symm⟩
    · rw [importRecords_of_stopsAt hf] at h
      cases h
    · rw [hcause] at h
      cases h
  · obtain ⟨cause, hcause⟩ := readImport_of_not_holds (not_exists.1 hlist)
    rw [hcause] at h
    cases h

theorem merges_merge {es : Table Scalar Atom} (hes : ∀ e ∈ es, IsLabelled e) :
    Merges es.values (Table.merge [] es).values := by
  have hsharp : ∀ k ∈ es.keys, Key.Sharp k := by
    intro k hk
    obtain ⟨e, he, rfl⟩ := List.mem_map.1 hk
    obtain ⟨id, hid, -⟩ := hes e he
    exact hid ▸ Key.sharp_text id
  have hlast : ∀ e ∈ Table.merge [] es,
      ∃ before after, es = before ++ e :: after ∧ e.1 ∉ Table.keys after :=
    fun e he => Table.mem_merge hsharp he
  have hmerged : ∀ e ∈ Table.merge [] es, IsLabelled e := by
    intro e he
    obtain ⟨before, after, rfl, -⟩ := hlast e he
    exact hes e (by simp)
  refine ⟨?ids, fun a ha => ?last⟩
  case ids =>
    rw [ids_eq_keys hmerged, ids_eq_keys hes]
    exact Table.keys_merge hsharp fun _ _ => Value.scalar.inj
  case last =>
    obtain ⟨e, he, rfl⟩ := List.mem_map.1 ha
    obtain ⟨before, after, rfl, hnew⟩ := hlast e he
    refine ⟨Table.values before, Table.values after, ?_, fun b hb hid => hnew ?_⟩
    · rw [Table.values_append]
      rfl
    · obtain ⟨e', he', rfl⟩ := List.mem_map.1 hb
      obtain ⟨id, hkey, hid₁⟩ := hmerged e he
      obtain ⟨id', hkey', hid₂⟩ := hes e' (by simp [he'])
      have hsame : id' = id := by simpa [hid₁, hid₂] using hid
      rw [hkey, ← hsame, ← hkey']
      exact List.mem_map_of_mem he'

/-- What is read of a text is a merge of the atoms of its records. -/
theorem mergesText_of_readImport {data : Value} (h : readImport data = .ok atoms) :
    MergesText data (.count atoms.length) atoms.values := by
  obtain ⟨items, es, hlist, hes, rfl⟩ := readImport_eq_ok h
  have hlabels : ∀ e ∈ es, IsLabelled e := by
    intro e he
    obtain ⟨id, -, hkey, hid, -⟩ := importRecords_isEntry (importRecords_of_imports (n := 0) hes) e he
    exact ⟨id, hkey, hid⟩
  have hmerges := merges_merge hlabels
  refine ⟨items, Table.values es, hlist, ?_, hmerges, ?_⟩
  · unfold Table.values
    rw [List.forall₂_map_right_iff]
    exact hes.imp fun _ _ ⟨_, _, _, ha⟩ => ha
  · rw [← hmerges.ids, List.length_map, Table.values, List.length_map]

/-! ## All together -/

/-- **Places.** What a call does to the list of all atoms where it comes out well. -/
theorem Ends.arranges (h : Ends s c o atoms) (hs : IsMap s.atoms) (hc : c.NamesByText)
    (ho : o = .ok v) : Arranges s v atoms.values c := by
  induction h with
  | refused | overLimit _ => cases ho
  | @looked _ c _ hlooks => cases c <;> first | exact hlooks.elim | rfl
  | @appended s record a ha habsent =>
    cases ho
    have hnew := freeNumber_not_mem s
    refine ⟨a, _, ha, rfl, .inr ⟨habsent, mt hs.mem_ids.1 hnew⟩, ?_⟩
    have hid : (withGeneratedId a s.freeNumber).2.id = .text (generatedId s.freeNumber) := rfl
    have hputs := hs.puts hid
    rwa [Table.put_of_not_mem (Key.sharp_text _) hnew] at hputs
  | @stored s record a key ha hpresent hkey =>
    cases ho
    obtain ⟨id, hid⟩ := id_of_present hc ha hpresent
    rw [hid] at hkey
    cases hkey
    refine ⟨a, id, ha, hid, .inl hid, ?_⟩
    rw [withId_self hid]
    exact hs.puts hid
  | @removed s id key hkey hhas =>
    cases ho
    rw [Table.has_eq_isSome, Option.isSome_iff_exists] at hhas
    obtain ⟨old, hold⟩ := hhas
    obtain ⟨before, after, hall, herase⟩ := hs.removes hold
    refine .inr ⟨rfl, before, old, after, ?_, hall, herase⟩
    rw [(hs.lookup?_eq_some.1 hold).2, Value.eq_scalar_of_toKey hkey]
  | @notRemoved s id hnone =>
    cases ho
    refine .inl ⟨rfl, ?_, rfl⟩
    obtain hempty | ⟨key, hkey, hhas⟩ := hnone
    · unfold ids
      rw [hempty]
      exact List.not_mem_nil
    · rw [Table.has_eq_isSome, Option.isSome_eq_false_iff, Option.isNone_iff_eq_none] at hhas
      rw [Value.eq_scalar_of_toKey hkey]
      exact hs.not_mem_ids hhas
  | @updated s id key es a b hkey ha hb =>
    cases ho
    obtain ⟨hmem, label, rfl⟩ := hs.textKeys.mem_of_lookup? ha
    obtain rfl := Value.eq_scalar_of_toKey hkey
    have hid := (hs.lookup?_eq_some.1 ha).2
    have hid' : b.id = .text label := (assignAll_id hb).trans hid
    refine .inr ⟨rfl, es, a, b, rfl, hb, hid, hid', ?_⟩
    rw [withId_self hid']
    exact replaces_put ha b
  | notUpdated hkey hnone =>
    cases ho
    refine .inl ⟨rfl, ?_, rfl⟩
    rw [Value.eq_scalar_of_toKey hkey]
    exact hs.not_mem_ids hnone
  | cleared =>
    cases ho
    rfl
  | imported hread =>
    cases ho
    exact mergesText_of_readImport hread
  | exchanged htext _ ih => exact ⟨_, htext, ih .nil trivial ho⟩

/-- **The order of the store.** In every store that is reached, no id occurs twice, there are as many
atoms as are listed, and what is found under an id is the atom that carries it. A call that comes out
well adds an atom with a new id at the end, and one with an id that is there in its place. A change
keeps the id and the place, whatever id it gives, and a removal the order of the others. An import
leaves each id once, at the place of its first record, with the atom of the last one, and returns how
many ids there are. -/
theorem IsReachable.keeps_order (hs : s.IsReachable) :
    s.ids.Nodup ∧ s.size = s.all.length ∧
    (∀ id a, s.atom? id = .ok (some a) ↔ a ∈ s.all ∧ a.id = id) ∧
    ∀ c v t, c.NamesByText → (perform c).runOn s = (.ok v, t) → Arranges s v t.all c := by
  have hmap := hs.isMap
  refine ⟨?nodup, ?size, fun id a => ?found, fun c v t hc h => ?arranges⟩
  case nodup =>
    show (s.atoms.values.map (·.id)).Nodup
    rw [ids_eq_keys hmap.labels]
    exact hmap.nodup.map fun _ _ => Value.scalar.inj
  case size => exact (List.length_map _).symm
  case found =>
    constructor
    · intro h
      obtain ⟨key, hkey, h⟩ := Except.bind_eq_ok.1 h
      rw [Value.eq_scalar_of_toKey hkey]
      exact hmap.lookup?_eq_some.1 (Except.ok.inj h)
    · rintro ⟨ha, rfl⟩
      obtain ⟨e, he, rfl⟩ := List.mem_map.1 ha
      obtain ⟨id, -, hid⟩ := hmap.labels e he
      have hfound : s.atoms.lookup? (.text id) = some e.2 := hmap.lookup?_eq_some.2 ⟨ha, hid⟩
      rw [hid, ← hfound]
      rfl
  case arranges => exact (perform_ends h).arranges hmap hc rfl

/-- A change that gives another id to the first of two atoms keeps its id and its place. -/
theorem keeps_order_renamed :
    let s := after [.add (.record [("id", .text "a"), ("type", .text "t")]),
      .add (.record [("id", .text "b"), ("type", .text "t")])]
    let c : Command := .update (.text "a") (.record [("id", .text "z"), ("name", .text "n")])
    ∃ old new, Replaces s.all ((perform c).runOn s).2.all old new ∧ old.name = .null ∧
      new.name = .text "n" ∧ new.id = .text "a" := by
  intro s c
  have hs : s.IsReachable := by
    refine ⟨_, ?_, rfl⟩
    rw [List.forall_mem_cons, List.forall_mem_singleton]
    constructor
    · rintro es ⟨⟩
      exact .inr ⟨"a", rfl⟩
    · rintro es ⟨⟩
      exact .inr ⟨"b", rfl⟩
  have hrun : (perform c).runOn s = (.ok (.bool true), ((perform c).runOn s).2) := rfl
  obtain ⟨-, -, hfound, harranges⟩ := hs.keeps_order
  obtain ⟨hfalse, -⟩ | ⟨-, es, old, new, hes, hnew, hold, hid, hplace⟩ :=
    harranges c _ _ trivial hrun
  · cases hfalse
  · have hmem : old ∈ s.all := by
      obtain ⟨before, after, hall, -⟩ := hplace
      simp [hall]
    have hfirst : s.atom? (.text "a") = .ok (some old) := (hfound _ _).2 ⟨hmem, hold⟩
    cases hes
    cases hfirst
    cases hnew
    exact ⟨_, _, hplace, rfl, rfl, hid⟩

end KnowledgeGraph.Store
