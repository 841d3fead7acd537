import KnowledgeGraph.Proofs.Store.Refusal

/-!
# What a call does

`Ends s c o atoms` lists the ways in which a call of a store can end: with which answer or fault, and
with which atoms. `perform_ends` says that these are all. Properties of the atoms are read off the
rules, without a look at how the operations are carried out, and what each call keeps holds after
any calls (`after_keeps`).
-/

namespace KnowledgeGraph.Store

open Attempt

variable {s t : Store} {c : Command} {o : Except Fault Value}

/-! ## Runs -/

/-- The store after some calls on an empty one. A call that stops at a fault is followed by the next
one all the same. -/
def after (cs : List Command) : Store := cs.foldl (fun s c => ((perform c).runOn s).2) empty

def continued (s : Store) (cs : List Command) : Store :=
  cs.foldl (fun s c => ((perform c).runOn s).2) s

/-- **Runs.** What holds of the empty store and is kept by each call holds after all of them. -/
theorem after_keeps {I : Store → Prop} {cs : List Command} (hempty : I empty)
    (hcs : ∀ c ∈ cs, Keeps I (perform c)) : I (after cs) := by
  unfold after
  suffices hrun : ∀ s, I s → I (cs.foldl (fun s c => ((perform c).runOn s).2) s) from
    hrun empty hempty
  induction cs with
  | nil => exact fun _ hs => hs
  | cons c rest ih =>
    intro s hs
    have ht : I ((perform c).runOn s).2 := hcs c List.mem_cons_self s hs
    exact ih (fun c hc => hcs c (List.mem_cons_of_mem _ hc)) _ ht

/-- **Calls.** A call keeps what the operations that it is made of keep; those that only look at the
store keep everything. -/
theorem perform_keeps {I : Store → Prop} {c : Command}
    (hadd : ∀ record, c = .add record → Keeps I (addRecord record))
    (hremove : ∀ id, c = .remove id → Keeps I (remove id))
    (hupdate : ∀ id updates, c = .update id updates → Keeps I (update id updates))
    (hclear : c = .clear ∨ c = .roundTrip → Keeps I clear)
    (himport : ∀ data, c = .importText data ∨ c = .roundTrip → Keeps I (importText data)) :
    Keeps I (perform c) := by
  cases c with
  | add record => exact hadd record rfl
  | get id => exact keeps_get.bind fun _ => (keeps_lift _).bind fun _ => keeps_lift _
  | query pattern => exact keeps_get.bind fun _ => (keeps_lift _).bind fun _ => keeps_lift _
  | all => exact keeps_get.bind fun _ => keeps_lift _
  | remove id => exact (hremove id rfl).bind fun _ => keeps_pure _
  | update id updates => exact (hupdate id updates rfl).bind fun _ => keeps_pure _
  | size => exact keeps_get.bind fun _ => keeps_pure _
  | clear => exact (hclear (.inl rfl)).bind fun _ => keeps_pure _
  | exportText => exact keeps_get.bind fun _ => (keeps_lift _).bind fun _ => keeps_pure _
  | importText data => exact (himport data (.inl rfl)).bind fun _ => keeps_pure _
  | roundTrip =>
    refine Keeps.bind (keeps_get.bind fun _ => (keeps_lift _).bind fun text => ?_)
      fun _ => keeps_pure _
    exact (hclear (.inr rfl)).bind fun _ => himport _ (.inr rfl)

/-! ## Ends -/

/-- A call that only looks at the store. -/
def Command.Looks : Command → Prop
  | .get _ | .query _ | .all | .size | .exportText => True
  | _ => False

/-- The id that an atom without one gets. -/
def withGeneratedId (a : Atom) (n : Nat) : Scalar × Atom :=
  (.text (generatedId n), { a with id := .text (generatedId n) })

/-- How a call of a store can end. -/
inductive Ends : Store → Command → Except Fault Value → Table Scalar Atom → Prop
  | refused {s : Store} {c : Command} {f : Fault} : Ends s c (.error f) s.atoms
  | looked {s : Store} {c : Command} {v : Value} (hc : c.Looks) : Ends s c (.ok v) s.atoms
  | appended {s : Store} {record : Value} {a : Atom} (ha : Atom.ofRecord record = .ok a)
      (habsent : a.id.isAbsent = true) :
      Ends s (.add record) (.ok (.text (generatedId s.freeNumber)))
        (s.atoms ++ [withGeneratedId a s.freeNumber])
  | stored {s : Store} {record : Value} {a : Atom} {key : Scalar}
      (ha : Atom.ofRecord record = .ok a) (hpresent : a.id.isAbsent = false)
      (hkey : a.id.toKey = .ok key) :
      Ends s (.add record) (.ok a.id) (s.atoms.put key a)
  | removed {s : Store} {id : Value} {key : Scalar} (hkey : id.toKey = .ok key)
      (hhas : s.atoms.has key = true) :
      Ends s (.remove id) (.ok (.bool true)) (s.atoms.erase key)
  | notRemoved {s : Store} {id : Value}
      (hnone : s.atoms = [] ∨ ∃ key, id.toKey = .ok key ∧ s.atoms.has key = false) :
      Ends s (.remove id) (.ok (.bool false)) s.atoms
  | updated {s : Store} {id : Value} {key : Scalar} {es : Entries} {a b : Atom}
      (hkey : id.toKey = .ok key) (ha : s.atoms.lookup? key = some a)
      (hb : assignAll a es = .ok b) :
      Ends s (.update id (.map es)) (.ok (.bool true)) (s.atoms.put key { b with id })
  | notUpdated {s : Store} {id updates : Value} {key : Scalar} (hkey : id.toKey = .ok key)
      (hnone : s.atoms.lookup? key = none) :
      Ends s (.update id updates) (.ok (.bool false)) s.atoms
  | cleared {s : Store} : Ends s .clear (.ok .null) []
  | imported {s : Store} {data : Value} {atoms : Table Scalar Atom}
      (hread : readImport data = .ok atoms) :
      Ends s (.importText data) (.ok (.count atoms.length)) atoms
  | overLimit {s : Store} {data : Value} {atoms : Table Scalar Atom} {f : Fault}
      (hread : readImport data = .ok atoms) : Ends s (.importText data) (.error f) atoms
  | exchanged {s : Store} {text : String} {o : Except Fault Value} {atoms : Table Scalar Atom}
      (htext : s.exportText = .ok text) (himport : Ends empty (.importText (.text text)) o atoms) :
      Ends s .roundTrip o atoms

/-! ## Single operations -/

theorem perform_add {record : Value} {a : Atom} (h : Atom.ofRecord record = .ok a) :
    (perform (.add record)).runOn s = (add a).runOn s := by
  show (addRecord record).runOn s = _
  cases record with
  | scalar k => rw [Atom.ofRecord] at h <;> cases h
  | list items => rw [Atom.ofRecord] at h <;> cases h
  | map es =>
    unfold addRecord
    rw [runOn_bind, runOn_lift, h]

/-- An atom without an id comes last, under the first free number, if this can be written. -/
theorem add_eq {a : Atom} (ha : a.id.isAbsent = true) : (add a).runOn s =
    if s.freeNumber < numberLimit then
      (.ok (.text (generatedId s.freeNumber)),
        ⟨s.atoms ++ [withGeneratedId a s.freeNumber], s.freeNumber + 1⟩)
    else (.error .tooManyDigits, { s with next := max s.next numberLimit }) := by
  unfold add
  rw [if_pos ha, runOn_bind, newId_eq]
  by_cases hshort : s.freeNumber < numberLimit
  · simp only [if_pos hshort, runOn_bind, runOn_modify, runOn_pure]
    rw [Table.put_of_not_mem (Key.sharp_text _) (freeNumber_not_mem s)]
    rfl
  · simp only [if_neg hshort]

/-- What an import does: the atoms are replaced once the whole text is read, and the counter once the
numbers in the ids are read. -/
theorem perform_importText (data : Value) (s : Store) : (perform (.importText data)).runOn s =
    match readImport data with
    | .error f => (.error f, s)
    | .ok atoms => match nextAfter atoms.keys with
      | .error f => (.error f, { s with atoms })
      | .ok next => (.ok (.count atoms.length), ⟨atoms, next⟩) := by
  unfold perform importText
  simp only [runOn_bind, runOn_lift, runOn_modify, runOn_pure]
  cases readImport data with
  | error f => rfl
  | ok atoms =>
    dsimp only
    cases nextAfter atoms.keys <;> rfl

theorem checkUpdates_eq_ok {updates : Value} {es : Entries} (h : checkUpdates updates = .ok es) :
    updates = .map es := by
  unfold checkUpdates at h
  obtain ⟨items, -, h⟩ := Except.bind_eq_ok.1 h
  obtain ⟨keys, -, h⟩ := Except.bind_eq_ok.1 h
  dsimp only at h
  split at h
  · obtain ⟨names, -, h⟩ := Except.bind_eq_ok.1 h
    cases h
  · split at h
    · cases h
      rfl
    · cases h

/-- A call that looks at the store with two steps that have no state. -/
theorem look_ends {α : Type} {f : Store → Except Fault α} {g : α → Except Fault Value}
    (hc : c.Looks) (hperform : perform c = do g (← f (← MonadState.get)))
    (h : (perform c).runOn s = (o, t)) : Ends s c o t.atoms := by
  rw [hperform, runOn_bind, runOn_get] at h
  cases o with
  | error fault =>
    obtain rfl | ⟨a, -, h⟩ := lift_bind_error h
    · exact .refused
    · cases (congrArg Prod.snd h : s = t)
      exact .refused
  | ok v =>
    obtain ⟨a, -, h⟩ := lift_bind_eq_ok.1 h
    cases (congrArg Prod.snd h : s = t)
    exact .looked hc

theorem add_ends {record : Value} (h : (perform (.add record)).runOn s = (o, t)) :
    Ends s (.add record) o t.atoms := by
  cases hrecord : Atom.ofRecord record with
  | error f =>
    change (addRecord record).runOn s = _ at h
    unfold addRecord at h
    split at h
    · rw [runOn_bind, runOn_lift, hrecord] at h
      cases h
      exact .refused
    · cases h
      exact .refused
  | ok a =>
    rw [perform_add hrecord] at h
    by_cases habsent : a.id.isAbsent = true
    · rw [add_eq habsent] at h
      split at h
      · cases h
        exact .appended hrecord habsent
      · cases h
        exact .refused
    · have hpresent := Bool.eq_false_iff.2 habsent
      rw [add_of_id hpresent] at h
      split at h
      · cases h
        exact .refused
      · rename_i key hkey
        split at h
        · cases h
          exact .refused
        · cases h
          exact .stored hrecord hpresent hkey

theorem remove_ends {id : Value} (h : (perform (.remove id)).runOn s = (o, t)) :
    Ends s (.remove id) o t.atoms := by
  cases o with
  | error f =>
    rw [remove_error (bind_pure_error h)]
    exact .refused
  | ok v =>
    obtain ⟨found, u, hremove, hv⟩ := bind_eq_ok.1 h
    cases hv
    unfold remove at hremove
    rw [runOn_bind, runOn_get] at hremove
    dsimp only at hremove
    split at hremove
    · rename_i hempty
      cases hremove
      exact .notRemoved (.inl (List.isEmpty_iff.1 hempty))
    · obtain ⟨key, hkey, hremove⟩ := lift_bind_eq_ok.1 hremove
      split at hremove
      · rename_i hhas
        cases hremove
        exact .removed hkey hhas
      · rename_i hhas
        cases hremove
        exact .notRemoved (.inr ⟨key, hkey, Bool.eq_false_iff.2 hhas⟩)

theorem update_ends {id updates : Value} (h : (perform (.update id updates)).runOn s = (o, t)) :
    Ends s (.update id updates) o t.atoms := by
  cases o with
  | error f =>
    rw [update_error (bind_pure_error h)]
    exact .refused
  | ok v =>
    obtain ⟨found, u, hupdate, hv⟩ := bind_eq_ok.1 h
    cases hv
    obtain ⟨key, hkey, hupdate⟩ := lift_bind_eq_ok.1 hupdate
    rw [runOn_bind, runOn_get] at hupdate
    dsimp only at hupdate
    split at hupdate
    · rename_i hnone
      cases hupdate
      exact .notUpdated hkey hnone
    · rename_i a ha
      obtain ⟨es, hes, hupdate⟩ := lift_bind_eq_ok.1 hupdate
      obtain ⟨b, hb, hset⟩ := lift_bind_eq_ok.1 hupdate
      obtain rfl := checkUpdates_eq_ok hes
      cases hset
      exact .updated hkey ha hb

theorem importText_ends {data : Value} (h : (perform (.importText data)).runOn s = (o, t)) :
    Ends s (.importText data) o t.atoms := by
  rw [perform_importText] at h
  split at h
  · cases h
    exact .refused
  · rename_i atoms hread
    split at h
    · cases h
      exact .overLimit hread
    · cases h
      exact .imported hread

/-- A round trip is an import into an empty store, once the text is there. -/
theorem perform_roundTrip (s : Store) : (perform .roundTrip).runOn s =
    match s.exportText with
    | .error f => (.error f, s)
    | .ok text => (perform (.importText (.text text))).runOn empty := by
  unfold perform roundTrip
  simp only [runOn_bind, runOn_get, runOn_lift]
  cases s.exportText <;> rfl

theorem roundTrip_ends (h : (perform .roundTrip).runOn s = (o, t)) :
    Ends s .roundTrip o t.atoms := by
  rw [perform_roundTrip] at h
  split at h
  · cases h
    exact .refused
  · rename_i text htext
    exact .exchanged htext (importText_ends h)

/-! ## All calls -/

/-- **Calls.** Every call ends in one of these ways. -/
theorem perform_ends (h : (perform c).runOn s = (o, t)) : Ends s c o t.atoms := by
  cases c with
  | add record => exact add_ends h
  | get id => exact look_ends trivial rfl h
  | query pattern => exact look_ends trivial rfl h
  | all => exact look_ends (f := fun s => .ok s.all) trivial rfl h
  | remove id => exact remove_ends h
  | update id updates => exact update_ends h
  | size =>
    cases h
    exact .looked trivial
  | clear =>
    cases h
    exact .cleared
  | exportText => exact look_ends (g := fun text => .ok (.text text)) trivial rfl h
  | importText data => exact importText_ends h
  | roundTrip => exact roundTrip_ends h

end KnowledgeGraph.Store
