import KnowledgeGraph.Proofs.Store.Tidy

/-!
# The store as a map

Whatever values updates put into the fields of atoms, no id occurs twice and each atom stands under
its own id, which is a text, as long as the ids that records bring along are texts
(`IsReachable.isMap`).
-/

namespace KnowledgeGraph.Store

variable {s : Store} {c : Command} {o : Except Fault Value} {k : Scalar}
  {atoms : Table Scalar Atom} {a : Atom}

/-! ## Maps -/

/-- An atom under its own id, which is a text. -/
def IsLabelled (e : Scalar × Atom) : Prop := ∃ id : String, e.1 = .text id ∧ e.2.id = .text id

/-- No id occurs twice, and each atom stands under its own id, which is a text. -/
structure IsMap (atoms : Table Scalar Atom) : Prop where
  nodup : atoms.keys.Nodup
  labels : ∀ e ∈ atoms, IsLabelled e

/-- The ids that the atoms carry are those that they stand under. -/
theorem ids_eq_keys (h : ∀ e ∈ atoms, IsLabelled e) :
    atoms.values.map (·.id) = atoms.keys.map .scalar := by
  unfold Table.values Table.keys
  rw [List.map_map, List.map_map]
  refine List.map_congr_left fun e he => ?_
  obtain ⟨id, hkey, hid⟩ := h e he
  rw [Function.comp_apply, Function.comp_apply, hkey, hid]

namespace IsMap

theorem textKeys (h : IsMap atoms) : atoms.TextKeys := by
  intro e he
  obtain ⟨id, hid, -⟩ := h.labels e he
  exact ⟨id, hid⟩

theorem mem_ids (h : IsMap atoms) : .scalar k ∈ atoms.values.map (·.id) ↔ k ∈ atoms.keys := by
  rw [ids_eq_keys h.labels]
  exact List.mem_map_of_injective fun _ _ => Value.scalar.inj

theorem not_mem_ids (h : IsMap atoms) (hnone : atoms.lookup? k = none) :
    .scalar k ∉ atoms.values.map (·.id) := by
  intro hk
  have hmem := h.mem_ids.1 hk
  exact (Table.lookup?_eq_none (h.textKeys.sharp k hmem)).1 hnone hmem

theorem lookup?_eq_some (h : IsMap atoms) :
    atoms.lookup? k = some a ↔ a ∈ atoms.values ∧ a.id = .scalar k := by
  constructor
  · intro hfound
    obtain ⟨hmem, -⟩ := h.textKeys.mem_of_lookup? hfound
    obtain ⟨id, hkey, hid⟩ := h.labels _ hmem
    exact ⟨List.mem_map_of_mem hmem, hid.trans (congrArg Value.scalar hkey.symm)⟩
  · rintro ⟨ha, hid⟩
    obtain ⟨e, he, rfl⟩ := List.mem_map.1 ha
    obtain ⟨id, hkey, hid'⟩ := h.labels e he
    have hk : e.1 = k := hkey.trans (Value.scalar.inj (hid'.symm.trans hid))
    rw [← hk]
    exact Table.lookup?_of_mem (h.textKeys.sharp _ (List.mem_map_of_mem he)) h.nodup he

theorem nil : IsMap [] := ⟨List.nodup_nil, nofun⟩

theorem put (h : IsMap atoms) {id : String} (ha : a.id = .text id) :
    IsMap (atoms.put (.text id) a) := by
  refine ⟨Table.keys_put_nodup (Key.sharp_text id) h.nodup, fun e he => ?_⟩
  obtain rfl | he := Table.mem_put (Key.sharp_text id) he
  · exact ⟨id, rfl, ha⟩
  · exact h.labels e he

theorem erase (h : IsMap atoms) (k : Scalar) : IsMap (atoms.erase k) :=
  ⟨Table.keys_erase_nodup h.nodup k, fun e he => h.labels e (List.mem_filter.1 he).1⟩

theorem append (h : IsMap atoms) {id : String} (ha : a.id = .text id)
    (hnew : Scalar.text id ∉ atoms.keys) : IsMap (atoms ++ [(.text id, a)]) := by
  rw [← Table.put_of_not_mem (Key.sharp_text id) hnew]
  exact h.put ha

end IsMap

theorem Tidy.isMap (h : Tidy atoms) : IsMap atoms := by
  refine ⟨h.nodup, fun e he => ?_⟩
  obtain ⟨id, -, hkey, hid, -⟩ := h.entries e he
  exact ⟨id, hkey, hid⟩

/-! ## Calls -/

/-- A call in which the id of an added record is a text, or there is none. Other calls may have any
arguments. -/
def Command.NamesByText : Command → Prop
  | .add record => ∀ es, record = .map es → (idOf es).isAbsent = true ∨ ∃ id, idOf es = .text id
  | _ => True

/-- **Calls.** However a call ends, a map is left. -/
theorem Ends.isMap (h : Ends s c o atoms) (hs : IsMap s.atoms) (hc : c.NamesByText) :
    IsMap atoms := by
  induction h with
  | refused | looked _ | notRemoved _ | notUpdated _ _ => exact hs
  | appended _ _ => exact hs.append rfl (freeNumber_not_mem _)
  | stored ha hpresent hkey =>
    obtain ⟨id, hid⟩ := id_of_present hc ha hpresent
    rw [hid] at hkey
    cases hkey
    exact hs.put hid
  | removed _ _ => exact hs.erase _
  | updated hkey ha _ =>
    obtain ⟨-, id, rfl⟩ := hs.textKeys.mem_of_lookup? ha
    exact hs.put (Value.eq_scalar_of_toKey hkey)
  | cleared => exact .nil
  | imported hread | overLimit hread => exact (readImport_tidy hread).isMap
  | exchanged _ _ ih => exact ih .nil trivial

/-- The store comes from calls on an empty one that give texts for ids. -/
def IsReachable (s : Store) : Prop :=
  ∃ cs : List Command, (∀ c ∈ cs, c.NamesByText) ∧ after cs = s

theorem IsReachable.isMap (h : s.IsReachable) : IsMap s.atoms := by
  obtain ⟨cs, hcs, rfl⟩ := h
  refine after_keeps (I := fun s => IsMap s.atoms) .nil fun c hc s hs => ?_
  exact (perform_ends rfl).isMap hs (hcs c hc)

theorem IsReachable.hasLabels (h : s.IsReachable) : ∀ e ∈ s.atoms, IsLabelled e := h.isMap.labels

end KnowledgeGraph.Store
