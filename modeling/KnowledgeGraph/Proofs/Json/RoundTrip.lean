import KnowledgeGraph.Proofs.Json.Scalar
import KnowledgeGraph.Proofs.Value.Canonical

/-!
# Lines come back

What is written on a line for a value with different texts for keys is read as the value, as long as no
number in it has too many digits (`read_writeLine`). So the lines of two such values whose keys are
sorted are the same exactly if the values are alike (`writeLine_sorted_iff`).
-/

namespace KnowledgeGraph.Json

/-! ## One value -/

section

variable {fuel : ℕ} {cs more rest : List Char} {v : Value} {vs : List Value} {es : Entries}

theorem toList_writeText (s : String) :
    (writeText s).toList = '"' :: (s.toList.flatMap escape ++ ['"']) := String.toList_ofList

theorem readValue_writeText (s : String) (rest : List Char) :
    readValue (fuel + 1) ((writeText s).toList ++ rest) = .ok (.text s, rest) := by
  rw [toList_writeText, List.cons_append, List.append_assoc, List.singleton_append, readValue,
    readText?_flatMap]
  exact congrArg (fun t => Except.ok (Value.text t, rest)) (String.ofList_toList)

/-- What is read as a number or a word is read as a value: it does not start with a quote, a bracket or
a brace. -/
theorem readValue_of_readScalar (h : readScalar cs = .ok (v, rest)) :
    readValue (fuel + 1) cs = .ok (v, rest) := by
  unfold readValue
  split
  · cases h
  · cases h
  · cases h
  · exact h

/-- What is read as a value starts neither with a blank nor with a closing bracket. -/
theorem exists_cons_of_readValue {r : Value × List Char} (h : readValue fuel cs = .ok r) :
    ∃ c more, cs = c :: more ∧ isSpace c = false ∧ c ≠ ']' := by
  cases fuel with
  | zero => cases h
  | succ fuel =>
    cases cs with
    | nil => cases h
    | cons c more =>
      refine ⟨c, more, rfl, Bool.eq_false_iff.2 fun hspace => ?_, fun hclose => ?_⟩
      · unfold isSpace at hspace
        simp only [Bool.or_eq_true, beq_iff_eq] at hspace
        obtain ((rfl | rfl) | rfl) | rfl := hspace <;> cases h
      · subst hclose
        cases h

theorem skipSpace_of_readValue {r : Value × List Char} (h : readValue fuel cs = .ok r) :
    skipSpace cs = cs := by
  obtain ⟨c, more, rfl, hspace, -⟩ := exists_cons_of_readValue h
  exact List.dropWhile_cons_of_neg (Bool.eq_false_iff.1 hspace)

/-! ## Items -/

theorem readItems_last (h : readValue fuel cs = .ok (v, ']' :: rest)) :
    readItems (fuel + 1) cs = .ok ([v], rest) := by
  rw [readItems, h]
  rfl

theorem exists_readValue_of_readItems (h : readItems fuel cs = .ok (vs, rest)) :
    ∃ n r, readValue n cs = .ok r := by
  cases fuel with
  | zero => cases h
  | succ fuel =>
    rw [readItems] at h
    obtain ⟨r, hr, -⟩ := Except.bind_eq_ok.1 h
    exact ⟨fuel, r, hr⟩

theorem readItems_next (h : readValue fuel cs = .ok (v, ',' :: ' ' :: more))
    (hmore : readItems fuel more = .ok (vs, rest)) :
    readItems (fuel + 1) cs = .ok (v :: vs, rest) := by
  obtain ⟨n, r, hr⟩ := exists_readValue_of_readItems hmore
  have hskip : skipSpace (' ' :: more) = more := skipSpace_of_readValue hr
  rw [readItems, h, Except.ok_bind]
  refine (congrArg (· >>= _) ((congrArg (readItems fuel) hskip).trans hmore)).trans ?_
  rfl

theorem readValue_of_readItems (h : readItems fuel cs = .ok (vs, rest)) :
    readValue (fuel + 1) ('[' :: cs) = .ok (.list vs, rest) := by
  obtain ⟨n, r, hr⟩ := exists_readValue_of_readItems h
  obtain ⟨c, more, rfl, -, hopen⟩ := exists_cons_of_readValue hr
  rw [readValue, skipSpace_of_readValue hr]
  split
  · rename_i heq
    exact absurd (List.cons.inj heq).1 hopen
  · rw [h]
    rfl

/-! ## Entries -/

theorem exists_cons_of_readEntries (h : readEntries fuel cs = .ok (es, rest)) :
    ∃ more, cs = '"' :: more := by
  cases fuel with
  | zero =>
    rw [readEntries] at h
    cases h
  | succ fuel =>
    rw [readEntries] at h
    obtain ⟨left, hleft, -⟩ := Except.bind_eq_ok.1 h
    cases cs with
    | nil => cases hleft
    | cons c more =>
      by_cases hc : c = '"'
      · exact ⟨more, congrArg (· :: more) hc⟩
      · have hnone : expect? ['"'] (c :: more) = none := by
          refine if_neg ?_
          simpa using Ne.symm hc
        rw [hnone] at hleft
        cases hleft

theorem readEntries_of_readValue {r : Value × List Char} (s : String)
    (h : readValue fuel cs = .ok r) :
    readEntries (fuel + 1) ((writeText s).toList ++ ':' :: ' ' :: cs) =
      match skipSpace r.2 with
      | '\x7d' :: rest => .ok ([(.text s, r.1)], rest)
      | ',' :: rest => do
        let (es, rest) ← readEntries fuel (skipSpace rest)
        return ((.text s, r.1) :: es, rest)
      | _ => .error .malformed := by
  have hskip : skipSpace (' ' :: cs) = cs := skipSpace_of_readValue h
  rw [toList_writeText, List.cons_append, List.append_assoc, List.singleton_append, readEntries]
  show wellFormed (readText? (s.toList.flatMap escape ++ '"' :: ':' :: ' ' :: cs)) >>= _ = _
  rw [readText?_flatMap]
  show readValue fuel (skipSpace (' ' :: cs)) >>= _ = _
  rw [hskip, h, String.ofList_toList, Except.ok_bind]
  rfl

theorem readEntries_last (s : String) (h : readValue fuel cs = .ok (v, '\x7d' :: rest)) :
    readEntries (fuel + 1) ((writeText s).toList ++ ':' :: ' ' :: cs) =
      .ok ([(.text s, v)], rest) := readEntries_of_readValue s h

theorem readEntries_next (s : String) (h : readValue fuel cs = .ok (v, ',' :: ' ' :: more))
    (hmore : readEntries fuel more = .ok (es, rest)) :
    readEntries (fuel + 1) ((writeText s).toList ++ ':' :: ' ' :: cs) =
      .ok ((.text s, v) :: es, rest) := by
  obtain ⟨more, rfl⟩ := exists_cons_of_readEntries hmore
  exact (readEntries_of_readValue s h).trans (congrArg (· >>= _) hmore)

theorem readValue_of_readEntries (h : readEntries fuel cs = .ok (es, rest)) :
    readValue (fuel + 1) ('\x7b' :: cs) = .ok (.map (Table.merge [] es), rest) := by
  obtain ⟨more, rfl⟩ := exists_cons_of_readEntries h
  rw [readValue]
  exact congrArg (Except.map _) h

end

/-! ## Lines -/

theorem toList_brackets (opening closing : Char) (s : String) :
    (String.singleton opening ++ s ++ String.singleton closing).toList =
      opening :: (s.toList ++ [closing]) := by
  rw [String.toList_append, String.toList_append, String.toList_singleton, String.toList_singleton]
  rfl

def itemsLine (vs : List Value) : List Char := (", ".intercalate (lineItems vs)).toList

def entriesLine (es : Entries) : List Char := (", ".intercalate (lineEntries es)).toList

theorem toList_writeLine_list (vs : List Value) :
    (writeLine (.list vs)).toList = '[' :: (itemsLine vs ++ [']']) := by
  rw [writeLine]
  exact toList_brackets '[' ']' _

theorem toList_writeLine_map (es : Entries) :
    (writeLine (.map es)).toList = '\x7b' :: (entriesLine es ++ ['\x7d']) := by
  rw [writeLine]
  exact toList_brackets '\x7b' '\x7d' _

theorem itemsLine_singleton (v : Value) : itemsLine [v] = (writeLine v).toList := by
  unfold itemsLine
  rw [lineItems, lineItems, String.toList_intercalate]
  exact List.intercalate_singleton

theorem itemsLine_cons_cons (v w : Value) (vs : List Value) :
    itemsLine (v :: w :: vs) = (writeLine v).toList ++ ',' :: ' ' :: itemsLine (w :: vs) := by
  unfold itemsLine
  rw [lineItems, lineItems, String.toList_intercalate, String.toList_intercalate, List.map_cons,
    List.map_cons, List.intercalate_cons_cons, List.append_assoc]
  rfl

theorem entriesLine_singleton (s : String) (v : Value) :
    entriesLine [(.text s, v)] = (writeText s).toList ++ ':' :: ' ' :: (writeLine v).toList := by
  unfold entriesLine
  rw [lineEntries, lineEntries, String.toList_intercalate]
  refine List.intercalate_singleton.trans ?_
  rw [String.toList_append, String.toList_append, List.append_assoc]
  rfl

theorem entriesLine_cons_cons (s : String) (v : Value) (e : Scalar × Value) (es : Entries) :
    entriesLine ((.text s, v) :: e :: es) = (writeText s).toList ++
      ':' :: ' ' :: ((writeLine v).toList ++ ',' :: ' ' :: entriesLine (e :: es)) := by
  unfold entriesLine
  rw [lineEntries, lineEntries, String.toList_intercalate, String.toList_intercalate, List.map_cons,
    List.map_cons, List.intercalate_cons_cons, String.toList_append, String.toList_append]
  simp only [List.append_assoc]
  rfl

/-! ## Values -/

/-- A value is read from its line, whatever follows that can follow it, with fuel for its length. -/
def ComesBack (v : Value) : Prop := ∀ ⦃fuel rest⦄, (writeLine v).toList.length ≤ fuel → Ends rest →
  readValue fuel ((writeLine v).toList ++ rest) = .ok (v.asRead, rest)

theorem readItems_line {vs : List Value} (h : ∀ v ∈ vs, ComesBack v) (hne : vs ≠ []) {fuel : ℕ}
    (hfuel : (itemsLine vs).length < fuel) (rest : List Char) :
    readItems fuel (itemsLine vs ++ ']' :: rest) = .ok (Value.asReadItems vs, rest) := by
  induction vs generalizing fuel with
  | nil => exact absurd rfl hne
  | cons v vs ih =>
    obtain ⟨fuel, rfl⟩ := Nat.exists_eq_succ_of_ne_zero (Nat.ne_zero_of_lt hfuel)
    rw [List.forall_mem_cons] at h
    cases vs with
    | nil =>
      rw [itemsLine_singleton] at hfuel ⊢
      rw [Value.asReadItems, Value.asReadItems]
      exact readItems_last (h.1 (Nat.le_of_lt_succ hfuel) ends_bracket)
    | cons w vs =>
      rw [itemsLine_cons_cons] at hfuel ⊢
      simp only [List.length_append, List.length_cons] at hfuel
      rw [Value.asReadItems, List.append_assoc]
      exact readItems_next (h.1 (by omega) ends_comma)
        (ih h.2 (List.cons_ne_nil w vs) (by omega))

theorem readEntries_line {es : Entries} (hkeys : Table.TextKeys es)
    (h : ∀ e ∈ es, ComesBack e.2) (hne : es ≠ []) {fuel : ℕ}
    (hfuel : (entriesLine es).length < fuel) (rest : List Char) :
    readEntries fuel (entriesLine es ++ '\x7d' :: rest) = .ok (Value.asReadEntries es, rest) := by
  induction es generalizing fuel with
  | nil => exact absurd rfl hne
  | cons e es ih =>
    obtain ⟨fuel, rfl⟩ := Nat.exists_eq_succ_of_ne_zero (Nat.ne_zero_of_lt hfuel)
    obtain ⟨k, v⟩ := e
    obtain ⟨s, rfl⟩ : ∃ s, k = .text s := hkeys _ List.mem_cons_self
    obtain ⟨hv, hes⟩ : ComesBack v ∧ ∀ e ∈ es, ComesBack e.2 := List.forall_mem_cons.1 h
    cases es with
    | nil =>
      rw [entriesLine_singleton] at hfuel ⊢
      simp only [List.length_append, List.length_cons] at hfuel
      rw [Value.asReadEntries, Value.asReadEntries, List.append_assoc]
      exact readEntries_last s (hv (by omega) ends_brace)
    | cons e es =>
      rw [entriesLine_cons_cons] at hfuel ⊢
      simp only [List.length_append, List.length_cons] at hfuel
      rw [Value.asReadEntries]
      simp only [List.append_assoc, List.cons_append]
      exact readEntries_next s (hv (by omega) ends_comma)
        (ih (fun f hf => hkeys f (List.mem_cons_of_mem _ hf)) hes (List.cons_ne_nil e es) (by omega))

theorem comesBack_scalar {s : Scalar} (hs : s.isWritable = true) : ComesBack (.scalar s) := by
  have hread (fuel : ℕ) {rest : List Char} (hrest : Ends rest) :
      readValue (fuel + 1) ((writeScalar s).toList ++ rest) = .ok (.scalar s.asRead, rest) := by
    cases s with
    | text t => exact readValue_writeText t rest
    | _ => exact readValue_of_readScalar (readScalar_writeScalar hs rfl hrest)
  intro fuel rest hfuel hrest
  rw [writeLine] at hfuel ⊢
  obtain ⟨c, more, hcons, -⟩ := exists_cons_of_readValue (hread 0 ends_nil)
  rw [List.append_nil] at hcons
  rw [hcons, List.length_cons] at hfuel
  obtain ⟨fuel, rfl⟩ := Nat.exists_eq_add_of_le' (Nat.le_of_add_left_le hfuel)
  rw [Value.asRead]
  exact hread fuel hrest

theorem comesBack_list {vs : List Value} (h : ∀ v ∈ vs, ComesBack v) : ComesBack (.list vs) := by
  intro fuel rest hfuel hrest
  rw [toList_writeLine_list] at hfuel ⊢
  simp only [List.length_append, List.length_cons] at hfuel
  obtain ⟨fuel, rfl⟩ := Nat.exists_eq_add_of_le' (Nat.le_of_add_left_le hfuel)
  rw [Value.asRead_list, List.cons_append, List.append_assoc]
  by_cases hnil : vs = []
  · subst hnil
    rw [Value.asReadItems]
    rfl
  · exact readValue_of_readItems (readItems_line h hnil (by omega) rest)

theorem comesBack_map {es : Entries} (hkeys : Table.TextKeys es) (hnodup : (Table.keys es).Nodup)
    (h : ∀ e ∈ es, ComesBack e.2) : ComesBack (.map es) := by
  intro fuel rest hfuel hrest
  rw [toList_writeLine_map] at hfuel ⊢
  simp only [List.length_append, List.length_cons] at hfuel
  obtain ⟨fuel, rfl⟩ := Nat.exists_eq_add_of_le' (Nat.le_of_add_left_le hfuel)
  rw [Value.asRead_map, List.cons_append, List.append_assoc]
  by_cases hnil : es = []
  · subst hnil
    rw [Value.asReadEntries]
    rfl
  · have hread : readEntries fuel (entriesLine es ++ '\x7d' :: rest) = _ :=
      readEntries_line hkeys h hnil (by omega) rest
    have hmerge : Table.merge [] (Value.asReadEntries es) = Value.asReadEntries es := by
      have hsame : Table.keys (Value.asReadEntries es) = Table.keys es := by
        rw [Value.asReadEntries_eq_map]
        exact List.map_map
      exact Table.merge_of_nodup (hsame ▸ hkeys.sharp) (hsame ▸ hnodup)
    rw [← hmerge]
    exact readValue_of_readEntries hread

/-- A value with different texts for keys comes back if it can be written. -/
theorem comesBack {v : Value} (h : v.WellKeyed) (hw : v.isWritable = true) : ComesBack v := by
  induction h with
  | scalar s => exact comesBack_scalar (Value.isWritable_scalar s ▸ hw)
  | list _ ih =>
    rw [Value.isWritable_list, List.all_eq_true] at hw
    exact comesBack_list fun v hv => ih v hv (hw v hv)
  | map keys nodup _ ih =>
    rw [Value.isWritable_map, List.all_eq_true] at hw
    exact comesBack_map keys nodup fun e he =>
      ih e he ((Bool.and_eq_true _ _).mp (hw e he)).2

/-- **Lines.** A value with different texts for keys is read from its line, if no number in it has too
many digits. -/
theorem read_writeLine {v : Value} (h : v.WellKeyed) (hw : v.isWritable = true) :
    read (writeLine v) = .ok v.asRead := by
  have hback := comesBack h hw (Nat.le_succ _) ends_nil
  rw [List.append_nil] at hback
  unfold read
  dsimp only
  rw [skipSpace_of_readValue hback, hback]
  rfl

/-! ## The same line -/

theorem writeScalar_asRead (s : Scalar) : writeScalar s.asRead = writeScalar s := by
  cases s with
  | float x =>
    by_cases hnan : x.isNaN = true
    · have hread : (Scalar.float x).asRead = .nan 0 := if_pos hnan
      rw [hread]
      exact (write_of_isNaN hnan).symm
    · have hread : (Scalar.float x).asRead = .float x := if_neg hnan
      rw [hread]
  | _ => rfl

mutual

theorem writeLine_asRead : ∀ v : Value, writeLine v.asRead = writeLine v
  | .scalar s => by rw [Value.asRead, writeLine, writeLine, writeScalar_asRead]
  | .list vs => by rw [Value.asRead, writeLine, writeLine, lineItems_asRead vs]
  | .map es => by rw [Value.asRead, writeLine, writeLine, lineEntries_asRead es]

theorem lineItems_asRead : ∀ vs : List Value, lineItems (Value.asReadItems vs) = lineItems vs
  | [] => by rw [Value.asReadItems]
  | v :: vs => by rw [Value.asReadItems, lineItems, lineItems, writeLine_asRead v, lineItems_asRead vs]

theorem lineEntries_asRead : ∀ es : List (Scalar × Value),
    lineEntries (Value.asReadEntries es) = lineEntries es
  | [] => by rw [Value.asReadEntries]
  | (k, v) :: es => by
    rw [Value.asReadEntries, lineEntries, lineEntries, writeLine_asRead v, lineEntries_asRead es]

end

/-- **The line tells values apart.** With their keys sorted, two values that can be written have the same
line exactly if they are alike. -/
theorem writeLine_sorted_iff {v w : Value} (hv : v.WellKeyed) (hw : w.WellKeyed)
    (hv' : v.isWritable = true) (hw' : w.isWritable = true) :
    writeLine v.sorted = writeLine w.sorted ↔ v.alike w = true := by
  rw [Value.alike_iff hv hw, ← Value.asRead_sorted, ← Value.asRead_sorted]
  constructor
  · intro hline
    have hread := read_writeLine hv.sorted ((Value.isWritable_sorted v).trans hv')
    rw [hline, read_writeLine hw.sorted ((Value.isWritable_sorted w).trans hw')] at hread
    exact (Except.ok.inj hread).symm
  · intro hsame
    rw [← writeLine_asRead, hsame, writeLine_asRead]

end KnowledgeGraph.Json
