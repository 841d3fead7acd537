import KnowledgeGraph.Proofs.Store.Order

/-!
# What an update leaves alone

An update gives values to some attributes of one atom (`Attribute.given?`). Each of them gets what the
value decodes to, and every other attribute keeps what it holds (`assignAll_content`). The atom stays
in its place, under its id, and the other atoms and the counter stay as they are (`Changes`). This
holds in every store that is reached, also where ids are no texts, as each text is the id of at most
one atom (`HoldsTexts`). Updates of different atoms, or of different attributes, do not disturb each
other (`after_update`).
-/

namespace KnowledgeGraph.Store

open Attempt

variable {s t u : Store} {c : Command} {o : Except Fault Value} {atoms : Table Scalar Atom}
  {a b : Atom} {v : Value} {id : String} {es es' : Entries} {field found : Attribute}

/-! ## Attributes -/

/-- What an attribute holds. -/
inductive Content where
  | value (v : Value)
  | truth (slot : Slot TruthValue)
  | attention (slot : Slot AttentionValue)
  | atoms (slots : List (Slot Atom))
  | metadata (es : Entries)

/-- What an attribute of an atom holds. -/
def Attribute.content (a : Atom) : Attribute → Content
  | .type => .value a.type
  | .name => .value a.name
  | .truth => .truth a.truth
  | .attention => .attention a.attention
  | .outgoing => .atoms a.outgoing
  | .incoming => .atoms a.incoming
  | .metadata => .metadata a.metadata

/-- What a value decodes to that is given to an attribute. -/
def Attribute.decode (v : Value) : Attribute → Except Fault Content
  | .type | .name => .ok (.value v)
  | .truth => return .truth (← readSlot TruthValue.ofValue v)
  | .attention => return .attention (← readSlot AttentionValue.ofValue v)
  | .outgoing | .incoming => return .atoms (← readMembers v)
  | .metadata => return .metadata (← v.toMapOrEmpty)

theorem eq_of_content (hid : a.id = b.id)
    (h : ∀ field : Attribute, field.content a = field.content b) : a = b := by
  have htype := h .type
  have hname := h .name
  have htruth := h .truth
  have hattention := h .attention
  have houtgoing := h .outgoing
  have hincoming := h .incoming
  have hmetadata := h .metadata
  cases a
  cases b
  simp_all [Attribute.content]

/-- What is put into an attribute is what the value decodes to; the other ones are left alone. -/
theorem assign_content (h : found.assign a v = .ok b) (field : Attribute) :
    if found = field then field.decode v = .ok (field.content b)
    else field.content b = field.content a := by
  cases found with
  | type | name =>
    cases h
    cases field <;> rfl
  | truth | attention | outgoing | incoming | metadata =>
    obtain ⟨x, hx, h⟩ := Except.bind_eq_ok.1 h
    cases h
    cases field <;> simp [Attribute.decode, Attribute.content, hx]

/-- Whether a value can be put into an attribute does not depend on the atom. -/
theorem assign_returns (h : found.assign a v = .ok b) (a' : Atom) :
    Except.Returns (found.assign a' v) := by
  cases found with
  | type | name => exact Except.returns_ok _
  | truth | attention | outgoing | incoming | metadata =>
    obtain ⟨x, hx, -⟩ := Except.bind_eq_ok.1 h
    exact Except.returns_bind hx (Except.returns_ok _)

/-- What an attribute comes to hold: what the value decodes to that it is given, or what it held. -/
def Attribute.Becomes (es : Entries) (old new : Content) (field : Attribute) : Prop :=
  match field.given? es with
  | some v => field.decode v = .ok new
  | none => new = old

theorem Attribute.becomes_of_none {old new : Content} (h : field.given? es = none) :
    field.Becomes es old new ↔ new = old := by
  unfold Becomes
  rw [h]

theorem Attribute.Becomes.unique {old new new' : Content} (h : field.Becomes es old new)
    (h' : field.Becomes es old new') : new = new' := by
  unfold Becomes at h h'
  cases hgiven : field.given? es with
  | some v =>
    rw [hgiven] at h h'
    exact Except.ok.inj (h.symm.trans h')
  | none =>
    rw [hgiven] at h h'
    exact h.trans h'.symm

/-- **Attributes.** An update changes the attributes that it gives a value, and no others. -/
theorem assignAll_content (h : assignAll a es = .ok b) (field : Attribute) :
    field.Becomes es (field.content a) (field.content b) := by
  unfold Attribute.Becomes
  induction es generalizing a with
  | nil =>
    cases h
    rfl
  | cons e rest ih =>
    obtain ⟨k, v⟩ := e
    rw [assignAll] at h
    unfold Attribute.given?
    cases hfound : Attribute.ofKey? k with
    | none =>
      rw [hfound] at h
      simpa using ih h
    | some found =>
      rw [hfound] at h
      obtain ⟨c, hc, h⟩ := Except.bind_eq_ok.1 h
      have hrest := ih h
      cases hgiven : field.given? rest with
      | some w =>
        rw [hgiven] at hrest
        exact hrest
      | none =>
        rw [hgiven] at hrest
        have hfirst := assign_content hc field
        rw [Option.none_or]
        by_cases hsame : found = field
        · rw [if_pos hsame, ← hrest] at hfirst
          simpa [hsame] using hfirst
        · rw [if_neg hsame, ← hrest] at hfirst
          simpa [hsame] using hfirst

theorem assignAll_returns (h : assignAll a es = .ok b) (a' : Atom) :
    Except.Returns (assignAll a' es) := by
  induction es generalizing a a' with
  | nil => exact Except.returns_ok a'
  | cons e rest ih =>
    rw [assignAll] at h ⊢
    split at h
    · exact ih h a'
    · obtain ⟨c, hc, h⟩ := Except.bind_eq_ok.1 h
      obtain ⟨c', hc'⟩ := assign_returns hc a'
      exact Except.returns_bind hc' (ih h c')

/-- Updates that give values to no attribute in common. -/
def AreDisjoint (es es' : Entries) : Prop :=
  ∀ field : Attribute, field.given? es = none ∨ field.given? es' = none

/-- **Exchange.** Updates of different attributes come to the same in both orders. -/
theorem assignAll_comm {b' c c' : Atom} (hdisjoint : AreDisjoint es es')
    (hb : assignAll a es = .ok b) (hc : assignAll { b with id := .text id } es' = .ok c)
    (hb' : assignAll a es' = .ok b') (hc' : assignAll { b' with id := .text id } es = .ok c') :
    c = c' := by
  refine eq_of_content ((assignAll_id hc).trans (assignAll_id hc').symm) fun field => ?_
  have hsame (x : Atom) : field.content { x with id := .text id } = field.content x := by
    cases field <;> rfl
  have h₁ := assignAll_content hb field
  have h₂ := assignAll_content hc field
  have h₃ := assignAll_content hb' field
  have h₄ := assignAll_content hc' field
  rw [hsame] at h₂ h₄
  obtain hnone | hnone := hdisjoint field
  · rw [Attribute.becomes_of_none hnone] at h₁ h₄
    rw [h₁] at h₂
    rw [h₄]
    exact h₂.unique h₃
  · rw [Attribute.becomes_of_none hnone] at h₂ h₃
    rw [h₃] at h₄
    rw [h₂]
    exact h₁.unique h₄

/-! ## Ids -/

/-- An atom has a text as its id exactly if it stands under it, and no other one stands there. -/
structure HoldsTexts (atoms : Table Scalar Atom) : Prop where
  labels : ∀ e ∈ atoms, ∀ id : String, e.1 = .text id ↔ e.2.id = .text id
  nodup : (atoms.keys.filterMap Scalar.text?).Nodup

theorem text?_eq_some {k : Scalar} : k.text? = some id ↔ k = .text id := by
  cases k <;> simp [Scalar.text?]

theorem nodup_texts {ks : List Scalar} (h : ks.Nodup) : (ks.filterMap Scalar.text?).Nodup := by
  refine h.filterMap fun j j' id hj hj' => ?_
  rw [text?_eq_some.1 hj, text?_eq_some.1 hj']

namespace HoldsTexts

theorem nil : HoldsTexts [] := ⟨nofun, List.nodup_nil⟩

theorem put (h : HoldsTexts atoms) {k : Scalar} (ha : a.id = .scalar k) :
    HoldsTexts (atoms.put k a) := by
  have hlabel (id : String) : k = .text id ↔ a.id = .text id := by
    rw [ha, Value.scalar.injEq]
  constructor
  · intro e he id
    obtain he | rfl | ⟨hsame, rfl⟩ := Table.mem_put_cases he
    · exact h.labels e he id
    · exact hlabel id
    · exact (Key.eq_text_congr hsame).trans (hlabel id)
  · rw [Table.keys_put]
    split
    · exact h.nodup
    · rename_i hnew
      rw [List.filterMap_append]
      refine List.Nodup.append h.nodup (nodup_texts (List.nodup_singleton k)) fun id hold hid => ?_
      obtain ⟨j, hj, hold⟩ := List.mem_filterMap.1 hold
      obtain ⟨j', hj', hid⟩ := List.mem_filterMap.1 hid
      obtain rfl := text?_eq_some.1 hold
      obtain rfl := (List.mem_singleton.1 hj').symm.trans (text?_eq_some.1 hid)
      exact hnew ((Table.has_eq_true (Key.sharp_text id)).2 hj)

theorem erase (h : HoldsTexts atoms) (k : Scalar) : HoldsTexts (atoms.erase k) := by
  have hsublist : (atoms.erase k).Sublist atoms := List.filter_sublist
  exact ⟨fun e he => h.labels e (hsublist.mem he),
    h.nodup.sublist ((hsublist.map _).filterMap _)⟩

/-- The atom under a text, and its place. -/
theorem split (h : HoldsTexts atoms) (hfound : atoms.lookup? (.text id) = some a) (b : Atom) :
    a.id = .text id ∧ ∃ before after, atoms = before ++ (.text id, a) :: after ∧
      atoms.put (.text id) b = before ++ (.text id, b) :: after ∧
      ∀ e ∈ before ++ after, e.2.id ≠ .text id := by
  have hsharp := Key.sharp_text id
  refine ⟨(h.labels _ (Table.mem_of_lookup? hsharp hfound) id).1 rfl, ?_⟩
  obtain ⟨before, after, rfl, hput⟩ := Table.put_split hsharp hfound b
  refine ⟨before, after, rfl, hput, fun e he hid => ?_⟩
  have hmem : e ∈ before ++ (.text id, a) :: after := by
    rw [List.mem_append] at he ⊢
    exact he.imp_right (List.mem_cons_of_mem _)
  have hkey := (h.labels e hmem id).2 hid
  have hnodup := h.nodup
  rw [Table.keys_append, List.filterMap_append] at hnodup
  obtain ⟨hnew, -⟩ := List.nodup_cons.1 (List.nodup_middle.1 hnodup)
  have hother : id ∈ (Table.keys (before ++ after)).filterMap Scalar.text? :=
    List.mem_filterMap.2 ⟨e.1, List.mem_map_of_mem he, text?_eq_some.2 hkey⟩
  rw [Table.keys_append, List.filterMap_append] at hother
  exact hnew hother

theorem lookup?_eq_none (h : HoldsTexts s.atoms) :
    s.atoms.lookup? (.text id) = none ↔ .text id ∉ s.ids := by
  rw [Table.lookup?_eq_none (Key.sharp_text id), not_iff_not]
  constructor
  · intro hmem
    obtain ⟨e, he, hkey⟩ := List.mem_map.1 hmem
    exact List.mem_map.2 ⟨e.2, List.mem_map_of_mem he, (h.labels e he id).1 hkey⟩
  · intro hmem
    obtain ⟨a, ha, hid⟩ := List.mem_map.1 hmem
    obtain ⟨e, he, rfl⟩ := List.mem_map.1 ha
    exact List.mem_map.2 ⟨e, he, (h.labels e he id).2 hid⟩

end HoldsTexts

theorem IsMap.holdsTexts (h : IsMap atoms) : HoldsTexts atoms := by
  constructor
  · intro e he id
    obtain ⟨id', hkey, hid⟩ := h.labels e he
    rw [hkey, hid]
    exact ⟨fun h => congrArg Value.scalar h, fun h => Value.scalar.inj h⟩
  · exact nodup_texts h.nodup

/-- **Calls.** However a call ends, each text is the id of at most one atom. -/
theorem Ends.holdsTexts (h : Ends s c o atoms) (hs : HoldsTexts s.atoms) : HoldsTexts atoms := by
  induction h with
  | refused | looked _ | notRemoved _ | notUpdated _ _ => exact hs
  | @appended s record a _ _ =>
    have hput := hs.put (a := (withGeneratedId a s.freeNumber).2) rfl
    rw [Table.put_of_not_mem (Key.sharp_text _) (freeNumber_not_mem s)] at hput
    exact hput
  | stored _ _ hkey => exact hs.put (Value.eq_scalar_of_toKey hkey)
  | removed _ _ => exact hs.erase _
  | updated hkey _ _ => exact hs.put (Value.eq_scalar_of_toKey hkey)
  | cleared => exact .nil
  | imported hread | overLimit hread => exact (readImport_tidy hread).isMap.holdsTexts
  | exchanged _ _ ih => exact ih .nil

theorem after_holdsTexts (cs : List Command) : HoldsTexts (after cs).atoms :=
  after_keeps (I := fun s => HoldsTexts s.atoms) .nil fun _ _ _ hs => (perform_ends rfl).holdsTexts hs

/-! ## Updates -/

/-- When an update of the atom under a text changes it, and what it leaves. -/
theorem update_eq_true : (update (.text id) (.map es)).runOn s = (.ok true, t) ↔
    ∃ a b, s.atoms.lookup? (.text id) = some a ∧ checkUpdates (.map es) = .ok es ∧
      assignAll a es = .ok b ∧
      t = { s with atoms := s.atoms.put (.text id) { b with id := .text id } } := by
  have hkey : (Value.text id).toKey = .ok (.text id) := rfl
  unfold update
  rw [hkey, runOn_bind, runOn_lift]
  simp only [runOn_bind, runOn_get]
  cases hfound : s.atoms.lookup? (.text id) with
  | none => simp
  | some a =>
    simp only [lift_bind_eq_ok]
    constructor
    · rintro ⟨es', hes', b, hb, ht⟩
      cases checkUpdates_eq_ok hes'
      cases ht
      exact ⟨a, b, rfl, hes', hb, rfl⟩
    · rintro ⟨_, b, ha, hes, hb, rfl⟩
      cases ha
      exact ⟨es, hes, b, hb, rfl⟩

/-- Where there is no atom with an id, an update of it has nothing to do. -/
theorem update_of_none (hnone : s.atoms.lookup? (.text id) = none) (updates : Value) :
    (update (.text id) updates).runOn s = (.ok false, s) := by
  have hkey : (Value.text id).toKey = .ok (.text id) := rfl
  unfold update
  rw [hkey, runOn_bind, runOn_lift]
  simp only [runOn_bind, runOn_get, hnone, runOn_pure]

/-- An update changes the atom with an id, which keeps its place, and there the attributes that it
gives a value. -/
structure Changes (id : String) (es : Entries) (s t : Store) : Prop where
  next : t.next = s.next
  size : t.size = s.size
  atoms : ∃ before old new after, s.all = before ++ old :: after ∧ t.all = before ++ new :: after ∧
    old.id = .text id ∧ new.id = .text id ∧ (∀ a ∈ before ++ after, a.id ≠ .text id) ∧
    ∀ field : Attribute, field.Becomes es (field.content old) (field.content new)

theorem HoldsTexts.changes (hs : HoldsTexts s.atoms)
    (h : (update (.text id) (.map es)).runOn s = (.ok true, t)) : Changes id es s t := by
  obtain ⟨a, b, hfound, -, hb, rfl⟩ := update_eq_true.1 h
  obtain ⟨hid, before, after, hatoms, hput, hother⟩ := hs.split hfound { b with id := .text id }
  refine ⟨rfl, ?size, Table.values before, a, b, Table.values after, ?old, ?new, hid,
    (assignAll_id hb).trans hid, ?other, assignAll_content hb⟩
  case size =>
    show (s.atoms.put _ _).length = s.atoms.length
    rw [hput, hatoms, List.length_append, List.length_append]
    rfl
  case old =>
    show s.atoms.values = _
    rw [hatoms, Table.values_append]
    rfl
  case new =>
    show (s.atoms.put _ _).values = _
    rw [hput, withId_self ((assignAll_id hb).trans hid), Table.values_append]
    rfl
  case other =>
    intro x hx
    rw [← Table.values_append] at hx
    obtain ⟨e, he, rfl⟩ := List.mem_map.1 hx
    exact hother e he

/-- Whether an update comes out well depends on the ids that are there, and on nothing else. -/
theorem update_returns (h : ((update (.text id) (.map es)).runOn s).1 = .ok true)
    (hatoms : s.atoms.lookup? (.text id) ≠ none → ∃ a, atoms.lookup? (.text id) = some a) :
    ∃ a b, atoms.lookup? (.text id) = some a ∧ checkUpdates (.map es) = .ok es ∧
      assignAll a es = .ok b := by
  obtain ⟨a', b', ha', hes, hb', -⟩ := update_eq_true.1 (Prod.ext h rfl)
  obtain ⟨a, ha⟩ := hatoms (by rw [ha']; exact Option.some_ne_none a')
  obtain ⟨b, hb⟩ := assignAll_returns hb' a
  exact ⟨a, b, ha, hes, hb⟩

/-- **Exchange.** Two updates of different atoms, or of different attributes, come to the same in
both orders. -/
theorem update_comm {id' : String} (hdisjoint : id ≠ id' ∨ AreDisjoint es es')
    (h : (update (.text id) (.map es)).runOn s = (.ok true, t))
    (h' : ((update (.text id') (.map es')).runOn s).1 = .ok true ∨
      ((update (.text id') (.map es')).runOn t).1 = .ok true) :
    ∃ t' u, (update (.text id') (.map es')).runOn s = (.ok true, t') ∧
      (update (.text id') (.map es')).runOn t = (.ok true, u) ∧
      (update (.text id) (.map es)).runOn t' = (.ok true, u) := by
  obtain ⟨a, b, ha, hes, hb, rfl⟩ := update_eq_true.1 h
  have hsharp := Key.sharp_text id
  have hsharp' := Key.sharp_text id'
  by_cases hid : id = id'
  · subst hid
    have hdisjoint := hdisjoint.resolve_left (fun hne => hne rfl)
    obtain ⟨_, b', ha', hes', hb'⟩ : ∃ a' b', s.atoms.lookup? (.text id) = some a' ∧
        checkUpdates (.map es') = .ok es' ∧ assignAll a' es' = .ok b' :=
      h'.elim (update_returns · fun _ => ⟨a, ha⟩) (update_returns · fun _ => ⟨a, ha⟩)
    cases ha.symm.trans ha'
    obtain ⟨c, hc⟩ := assignAll_returns hb' { b with id := .text id }
    obtain ⟨c', hc'⟩ := assignAll_returns hb { b' with id := .text id }
    obtain rfl := assignAll_comm hdisjoint hb hc hb' hc'
    refine ⟨_, _, update_eq_true.2 ⟨a, b', ha, hes', hb', rfl⟩,
      update_eq_true.2 ⟨_, c, Table.lookup?_put_self hsharp _ _, hes', hc, rfl⟩,
      update_eq_true.2 ⟨_, c, Table.lookup?_put_self hsharp _ _, hes, hc', ?_⟩⟩
    dsimp only
    rw [Table.put_put hsharp.same_self, Table.put_put hsharp.same_self]
  · have hother (x : Atom) : (s.atoms.put (.text id) x).lookup? (.text id') =
        s.atoms.lookup? (.text id') :=
      Table.lookup?_put_of_ne hsharp hsharp' (fun h => hid (by cases h; rfl)) s.atoms x
    obtain ⟨a', b', ha', hes', hb'⟩ : ∃ a' b', s.atoms.lookup? (.text id') = some a' ∧
        checkUpdates (.map es') = .ok es' ∧ assignAll a' es' = .ok b' :=
      h'.elim (update_returns · Option.ne_none_iff_exists'.1)
        (update_returns · fun hne => Option.ne_none_iff_exists'.1 (hother _ ▸ hne))
    have ha₂ : (s.atoms.put (.text id') { b' with id := .text id' }).lookup? (.text id) = some a :=
      (Table.lookup?_put_of_ne hsharp' hsharp (fun h => hid (by cases h; rfl)) _ _).trans ha
    refine ⟨_, _, update_eq_true.2 ⟨a', b', ha', hes', hb', rfl⟩,
      update_eq_true.2 ⟨a', b', (hother _).trans ha', hes', hb', rfl⟩,
      update_eq_true.2 ⟨a, b, ha₂, hes, hb, ?_⟩⟩
    dsimp only
    rw [Table.put_comm hsharp hsharp' (fun h => hid (by cases h; rfl))
      (List.mem_map_of_mem (Table.mem_of_lookup? hsharp ha))]

/-- **Updates.** In every store that is reached, an update of an id that no atom has changes nothing;
one that comes out well changes the atom with the id where it gives a value, and nothing else
(`Changes`); and two that come out well can be exchanged if they are of different atoms or of
different attributes. -/
theorem after_update (cs : List Command) (id : String) (es : Entries) :
    (.text id ∉ (after cs).ids →
      (update (.text id) (.map es)).runOn (after cs) = (.ok false, after cs)) ∧
    ∀ t, (update (.text id) (.map es)).runOn (after cs) = (.ok true, t) →
      Changes id es (after cs) t ∧
      ∀ id' es', id ≠ id' ∨ AreDisjoint es es' →
        ((update (.text id') (.map es')).runOn (after cs)).1 = .ok true ∨
          ((update (.text id') (.map es')).runOn t).1 = .ok true →
        ∃ t' u, (update (.text id') (.map es')).runOn (after cs) = (.ok true, t') ∧
          (update (.text id') (.map es')).runOn t = (.ok true, u) ∧
          (update (.text id) (.map es)).runOn t' = (.ok true, u) := by
  have hs := after_holdsTexts cs
  refine ⟨fun hnone => ?_, fun t ht => ?_⟩
  · exact update_of_none (hs.lookup?_eq_none.2 hnone) _
  · exact ⟨hs.changes ht, fun id' es' hdisjoint h' => update_comm hdisjoint ht h'⟩

/-- A name and a truth value can be given in either order; of the two spellings of the truth value
the later one counts, and the id is passed over. -/
theorem after_update_name :
    let cs : List Command := [.add (.record [("id", .text "a"), ("type", .text "t"),
      ("attentionValue", .record [("sti", .int 5)])])]
    let es : Entries := [(.text "name", .text "b"), (.text "id", .text "c")]
    let es' : Entries := [(.text "truth_value", .int 1), (.text "truthValue", .null)]
    (update (.text "b") (.map es)).runOn (after cs) = (.ok false, after cs) ∧
    ∃ t t' u, (update (.text "a") (.map es)).runOn (after cs) = (.ok true, t) ∧
      Changes "a" es (after cs) t ∧
      (update (.text "a") (.map es')).runOn (after cs) = (.ok true, t') ∧
      (update (.text "a") (.map es')).runOn t = (.ok true, u) ∧
      (update (.text "a") (.map es)).runOn t' = (.ok true, u) := by
  intro cs es es'
  have hids : (after cs).ids = [.text "a"] := rfl
  have hfirst : ((update (.text "a") (.map es)).runOn (after cs)).1 = .ok true := rfl
  have hsecond : ((update (.text "a") (.map es')).runOn (after cs)).1 = .ok true := rfl
  have hdisjoint : AreDisjoint es es' := by
    intro field
    cases field <;> simp [es, es', Attribute.given?, Attribute.ofKey?, Attribute.ofName?]
  obtain ⟨hnone, -⟩ := after_update cs "b" es
  obtain ⟨-, hsome⟩ := after_update cs "a" es
  obtain ⟨hchanges, hcomm⟩ := hsome _ (Prod.ext hfirst rfl)
  obtain ⟨t', u, ht', hu, hu'⟩ := hcomm "a" es' (.inr hdisjoint) (.inl hsecond)
  exact ⟨hnone (by simp [hids]), _, t', u, Prod.ext hfirst rfl, hchanges, ht', hu, hu'⟩

end KnowledgeGraph.Store
