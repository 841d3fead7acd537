import KnowledgeGraph.Proofs.Store.Maps

/-!
# Fresh ids

An atom that is added without an id comes last, under an id that no atom has. Until the counter
starts anew, the generated numbers rise, and after an import they are above those of the imported
ids (`generated_fresh`). Only numbers that are too long to be written are not handed out.
-/

namespace KnowledgeGraph.Store

open Attempt

variable {s t : Store} {c c' : Command} {n n' : Nat}

/-! ## Runs of the counter -/

/-- The call adds an atom without an id, which gets the generated one with the number. -/
def Generates (s : Store) (c : Command) (n : Nat) : Prop :=
  ∃ record a, c = .add record ∧ Atom.ofRecord record = .ok a ∧ a.id.isAbsent = true ∧
    ((perform c).runOn s).1 = .ok (.text (generatedId n))

/-- The call starts the counter anew: it clears the store, alone or in a round trip, or is an import
that comes out well. -/
def Restarts (s : Store) (c : Command) : Prop :=
  c = .clear ∨ c = .roundTrip ∨
    ∃ data size, c = .importText data ∧ ((perform c).runOn s).1 = .ok size

/-- None of the calls in a row starts the counter anew. -/
def GoesOn : Store → List Command → Prop
  | _, [] => True
  | s, c :: cs => ¬ s.Restarts c ∧ GoesOn ((perform c).runOn s).2 cs

/-- A generated number is not below the counter, which passes it. -/
theorem Generates.number (h : s.Generates c n) :
    n = s.freeNumber ∧ ((perform c).runOn s).2.next = n + 1 := by
  obtain ⟨record, a, rfl, hrecord, ha, hout⟩ := h
  rw [perform_add hrecord, add_eq ha] at hout ⊢
  split at hout
  · rename_i hshort
    rw [Except.ok.injEq, Value.scalar.injEq, Scalar.text.injEq] at hout
    have hn : n = s.freeNumber := (generatedId_injective hout).symm
    rw [if_pos hshort, hn]
    exact ⟨rfl, rfl⟩
  · cases hout

/-- The counter has come to a number or beyond. -/
def CountsFrom (n : Nat) (s : Store) : Prop := n ≤ s.next

theorem addRecord_countsFrom (record : Value) (n : Nat) :
    Keeps (CountsFrom n) (addRecord record) := by
  unfold addRecord
  split
  · refine (keeps_lift _).bind fun a => ?_
    cases habsent : a.id.isAbsent with
    | true =>
      unfold add
      rw [if_pos habsent]
      refine Keeps.bind (fun s hs => ?_) fun id => Keeps.bind (keeps_modify fun _ hs => hs)
        fun _ => keeps_pure _
      have hfree : s.next ≤ s.freeNumber := (freeNumber_spec s).1
      rw [newId_eq]
      split
      · exact Nat.le_trans hs (Nat.le_succ_of_le hfree)
      · exact Nat.le_trans hs (Nat.le_max_left _ _)
    | false =>
      intro s hs
      rw [add_of_id habsent]
      split
      · exact hs
      · split <;> exact hs
  · exact keeps_throw _

theorem remove_countsFrom (id : Value) (n : Nat) : Keeps (CountsFrom n) (remove id) := by
  refine keeps_get_bind fun s hs => ?_
  split
  · exact hs
  · refine keeps_lift_bind (fun key _ => ?_) s hs
    split
    · exact Keeps.bind (keeps_set (I := CountsFrom n) hs) fun _ => keeps_pure true
    · exact keeps_pure false

theorem update_countsFrom (id updates : Value) (n : Nat) :
    Keeps (CountsFrom n) (update id updates) := by
  refine keeps_lift_bind fun key _ => keeps_get_bind fun s hs => ?_
  split
  · exact hs
  · refine keeps_lift_bind (fun es _ => keeps_lift_bind fun b _ => ?_) s hs
    exact Keeps.bind (keeps_set (I := CountsFrom n) hs) fun _ => keeps_pure true

/-- The counter falls only when it starts anew. -/
theorem next_le_perform (h : ¬ s.Restarts c) : s.next ≤ ((perform c).runOn s).2.next := by
  by_cases himport : ∃ data, c = .importText data
  · obtain ⟨data, rfl⟩ := himport
    have hfails : ∀ size, ((perform (.importText data)).runOn s).1 ≠ .ok size :=
      fun size hsize => h (.inr (.inr ⟨data, size, rfl, hsize⟩))
    rw [perform_importText] at hfails ⊢
    cases hread : readImport data with
    | error f => exact Nat.le_refl _
    | ok atoms =>
      rw [hread] at hfails
      dsimp only at hfails ⊢
      cases hnext : nextAfter atoms.keys with
      | error f => exact Nat.le_refl _
      | ok next =>
        rw [hnext] at hfails
        exact absurd rfl (hfails _)
  · refine perform_keeps (I := CountsFrom s.next) (fun record _ => addRecord_countsFrom record _)
      (fun id _ => remove_countsFrom id _) (fun id updates _ => update_countsFrom id updates _)
      (fun hc => ?_) (fun data hc => ?_) s (Nat.le_refl _)
    · exact absurd (hc.imp_right .inl) h
    · obtain rfl | rfl := hc
      · exact absurd ⟨data, rfl⟩ himport
      · exact absurd (.inr (.inl rfl)) h

theorem next_le_continued {cs : List Command} (h : s.GoesOn cs) :
    s.next ≤ (s.continued cs).next := by
  induction cs generalizing s with
  | nil => exact Nat.le_refl _
  | cons c rest ih => exact Nat.le_trans (next_le_perform h.1) (ih h.2)

/-- Generated numbers rise as long as the counter does not start anew. -/
theorem Generates.lt {cs : List Command} (h : s.Generates c n)
    (hcs : ((perform c).runOn s).2.GoesOn cs)
    (h' : (((perform c).runOn s).2.continued cs).Generates c' n') : n < n' := by
  obtain ⟨-, hnext⟩ := h.number
  obtain ⟨rfl, -⟩ := h'.number
  have hcounter := next_le_continued hcs
  have hfree := (freeNumber_spec (((perform c).runOn s).2.continued cs)).1
  omega

/-! ## After an import -/

theorem le_foldl_max {m : Nat} {ns : List Nat} (h : m ∈ ns) (start : Nat) :
    m ≤ ns.foldl max start := by
  have hstart : ∀ (ns : List Nat) (k : Nat), k ≤ ns.foldl max k := by
    intro ns
    induction ns with
    | nil => exact fun k => Nat.le_refl k
    | cons n rest ih => exact fun k => Nat.le_trans (Nat.le_max_left k n) (ih _)
  induction ns generalizing start with
  | nil => cases h
  | cons n rest ih =>
    rcases List.mem_cons.1 h with rfl | h
    · exact Nat.le_trans (Nat.le_max_right _ _) (hstart rest _)
    · exact ih h _

theorem number_lt_nextAfter {ids : List Scalar} {next : Nat} (h : nextAfter ids = .ok next)
    {id : Scalar} (hid : id ∈ ids) {ds : List Char} (hds : generatedDigits? id = some ds) :
    Text.number ds < next := by
  obtain ⟨ns, hns, hnext⟩ := Except.bind_eq_ok.1 h
  have hread : ∀ ds ∈ ids.filterMap generatedDigits?, readNumber ds = .ok (Text.number ds) := by
    intro ds hds
    obtain ⟨n, hn⟩ := Except.exists_of_mapM_eq_ok hns hds
    unfold readNumber at hn ⊢
    split at hn
    · cases hn
    · rename_i hshort
      rw [if_neg hshort]
  rw [Except.mapM_of_forall hread, Except.ok.injEq] at hns
  rw [Except.pure_eq, Except.ok.injEq] at hnext
  have hmem : Text.number ds ∈ ns := by
    rw [← hns]
    exact List.mem_map_of_mem (List.mem_filterMap.2 ⟨id, hid, hds⟩)
  have hle := le_foldl_max hmem 0
  omega

theorem perform_importText_ok {data size : Value}
    (h : (perform (.importText data)).runOn s = (.ok size, t)) :
    readImport data = .ok t.atoms ∧ nextAfter t.atoms.keys = .ok t.next := by
  rw [perform_importText] at h
  cases hread : readImport data with
  | error f =>
    rw [hread] at h
    cases h
  | ok atoms =>
    rw [hread] at h
    dsimp only at h
    cases hnext : nextAfter atoms.keys with
    | error f =>
      rw [hnext] at h
      cases h
    | ok next =>
      rw [hnext] at h
      cases h
      exact ⟨rfl, hnext⟩

/-- The first number generated after an import is above all those in the imported ids. -/
theorem Generates.gt_imported {data size : Value}
    (h : (perform (.importText data)).runOn s = (.ok size, t)) (hg : t.Generates c n) {id : Scalar}
    (hid : id ∈ t.atoms.keys) {ds : List Char} (hds : generatedDigits? id = some ds) :
    Text.number ds < n := by
  obtain ⟨rfl, -⟩ := hg.number
  have hbelow := number_lt_nextAfter (perform_importText_ok h).2 hid hds
  exact Nat.lt_of_lt_of_le hbelow (freeNumber_spec t).1

/-! ## All together -/

/-- **Fresh ids.** In every store that is reached, a valid atom without an id is added under the id
with the first free number from the counter on, which no atom has; it comes last, and the others
stay as they are. This fails exactly when the number is too long to be written, and the atoms stay
as they are then. As long as the counter does not start anew, each generated number is above those
before it, whatever is removed in between, and after an import it is above those in the imported
ids. -/
theorem generated_fresh (hs : s.IsReachable) :
    (∀ record a, Atom.ofRecord record = .ok a → a.id.isAbsent = true →
      s.next ≤ s.freeNumber ∧ (∀ m, s.next ≤ m → m < s.freeNumber → s.IsTaken m) ∧
      (∀ b ∈ s.all, b.id ≠ .text (generatedId s.freeNumber)) ∧
      (s.freeNumber < numberLimit →
        ∃ t, (perform (.add record)).runOn s = (.ok (.text (generatedId s.freeNumber)), t) ∧
          t.atoms = s.atoms ++ [withGeneratedId a s.freeNumber] ∧ t.size = s.size + 1) ∧
      (numberLimit ≤ s.freeNumber →
        ∃ t, (perform (.add record)).runOn s = (.error .tooManyDigits, t) ∧ t.atoms = s.atoms)) ∧
    (∀ c n cs c' n', s.Generates c n → ((perform c).runOn s).2.GoesOn cs →
      (((perform c).runOn s).2.continued cs).Generates c' n' → n < n') ∧
    ∀ data size t, (perform (.importText data)).runOn s = (.ok size, t) →
      ∀ id ∈ t.atoms.keys, ∀ ds, generatedDigits? id = some ds →
        ∀ c n, t.Generates c n → Text.number ds < n := by
  obtain ⟨hnext, hfree, hbelow⟩ := freeNumber_spec s
  refine ⟨fun record a hrecord ha => ⟨hnext, hbelow, fun b hb hid => ?_, fun hshort => ?_,
      fun hlong => ?_⟩, fun c n cs c' n' h hcs h' => h.lt hcs h',
    fun data size t h id hid ds hds c n hg => hg.gt_imported h hid hds⟩
  · obtain ⟨e, he, rfl⟩ := List.mem_map.1 hb
    obtain ⟨label, hkey, hlabel⟩ := hs.hasLabels e he
    rw [hlabel] at hid
    refine hfree (isTaken_iff.2 (List.mem_map.2 ⟨e, he, ?_⟩))
    rw [hkey, ← Value.scalar.inj hid]
  · rw [perform_add hrecord, add_eq ha, if_pos hshort]
    refine ⟨_, rfl, rfl, ?_⟩
    show (s.atoms ++ [_]).length = s.atoms.length + 1
    rw [List.length_append, List.length_singleton]
  · rw [perform_add hrecord, add_eq ha, if_neg (Nat.not_lt.2 hlong)]
    exact ⟨_, rfl, rfl⟩

/-- The id of an added atom is passed over, and an id is not generated again although its atom was
removed. -/
theorem generated_fresh_again :
    let record : Value := .record [("type", .text "t")]
    let s := after [.add (.record [("id", .text "atom_2"), ("type", .text "t")]), .add record]
    let t := ((perform (.add record)).runOn s).2
    ((perform (.add record)).runOn s).1 = .ok (.text "atom_3") ∧
      (∀ b ∈ s.all, b.id ≠ .text "atom_3") ∧
      ∀ n, (t.continued [.remove (.text "atom_3")]).Generates (.add record) n → 3 < n := by
  intro record s t
  obtain ⟨a, hrecord, ha⟩ : ∃ a, Atom.ofRecord record = .ok a ∧ a.id.isAbsent = true :=
    ⟨_, rfl, rfl⟩
  have hs : s.IsReachable := by
    refine ⟨_, ?_, rfl⟩
    rw [List.forall_mem_cons, List.forall_mem_singleton]
    constructor
    · rintro es ⟨⟩
      exact .inr ⟨"atom_2", rfl⟩
    · intro es hes
      obtain rfl := Value.map.inj hes
      exact .inl rfl
  obtain ⟨hadd, hrise, -⟩ := generated_fresh hs
  obtain ⟨-, -, hfresh, hshort, -⟩ := hadd record a hrecord ha
  have hnumber : s.freeNumber = 3 := by decide +kernel
  rw [hnumber] at hfresh hshort
  obtain ⟨t', hrun, -, -⟩ := hshort (by decide +kernel)
  have hout : ((perform (.add record)).runOn s).1 = .ok (.text "atom_3") := congrArg Prod.fst hrun
  refine ⟨hout, hfresh, fun n hn => ?_⟩
  have hquiet : t.GoesOn [.remove (.text "atom_3")] := ⟨nofun, trivial⟩
  exact hrise _ 3 _ _ n ⟨record, a, rfl, hrecord, ha, hout⟩ hquiet hn

end KnowledgeGraph.Store
