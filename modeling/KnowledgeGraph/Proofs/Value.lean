import KnowledgeGraph.Proofs.Except
import KnowledgeGraph.Proofs.Number
import KnowledgeGraph.Value.Arithmetic
import Mathlib.Algebra.Group.Int.Defs

/-!
# Values

Equality of values can be decided, so that what is read from a text can be computed in a proof. A
text keeps all of a value but the marks of its not-a-numbers: `Value.asRead` is the value that comes
back from it, the same one if there is no not-a-number in it (`Value.asRead_eq_self`).
-/

namespace KnowledgeGraph

/-! ## Equality -/

namespace Value

mutual

def decEq : (v w : Value) → Decidable (v = w)
  | .scalar a, .scalar b => decidable_of_iff (a = b) (by rw [scalar.injEq])
  | .list vs, .list ws => @decidable_of_iff _ (vs = ws) (by rw [list.injEq]) (decEqItems vs ws)
  | .map es, .map fs => @decidable_of_iff _ (es = fs) (by rw [map.injEq]) (decEqEntries es fs)
  | .scalar _, .list _ | .scalar _, .map _ | .list _, .scalar _ | .list _, .map _
  | .map _, .scalar _ | .map _, .list _ => .isFalse nofun

/-- Equality of lists of values can be decided. -/
def decEqItems : (vs ws : List Value) → Decidable (vs = ws)
  | [], [] => .isTrue rfl
  | v :: vs, w :: ws =>
    @decidable_of_iff _ (v = w ∧ vs = ws) (by rw [List.cons.injEq])
      (@instDecidableAnd _ _ (decEq v w) (decEqItems vs ws))
  | [], _ :: _ | _ :: _, [] => .isFalse nofun

/-- Equality of entries can be decided. -/
def decEqEntries : (es fs : List (Scalar × Value)) → Decidable (es = fs)
  | [], [] => .isTrue rfl
  | (k, v) :: es, (l, w) :: fs =>
    @decidable_of_iff _ (k = l ∧ v = w ∧ es = fs)
      (by rw [List.cons.injEq, Prod.mk.injEq, and_assoc])
      (@instDecidableAnd _ _ inferInstance
        (@instDecidableAnd _ _ (decEq v w) (decEqEntries es fs)))
  | [], _ :: _ | _ :: _, [] => .isFalse nofun

end

instance : DecidableEq Value := decEq

end Value

/-! ## Keys and settings -/

theorem toString_injective : Function.Injective (toString : Nat → String) := by
  intro m n h
  rw [Nat.toString_eq_ofList_toDigits, Nat.toString_eq_ofList_toDigits, String.ofList_inj] at h
  have hread := congrArg (fun ds => Nat.ofDigitChars 10 ds 0) h
  simpa only [Nat.ofDigitChars_ten_toDigits] using hread

theorem Value.eq_scalar_of_toKey {v : Value} {k : Scalar} (h : v.toKey = .ok k) :
    v = .scalar k := by
  cases v with
  | scalar s => exact congrArg Value.scalar (Except.ok.inj h)
  | list items => cases h
  | map es => cases h

/-- A text or null. -/
def Value.IsTextOrNull (v : Value) : Prop := v = .null ∨ ∃ s, v = .text s

theorem Value.IsTextOrNull.exists_text {v : Value} (h : v.IsTextOrNull) (hv : v.isAbsent = false) :
    ∃ s, v = .text s := by
  obtain rfl | htext := h
  · cases hv
  · exact htext

theorem Value.IsTextOrNull.toKey {v : Value} (h : v.IsTextOrNull) : ∃ k, v.toKey = .ok k := by
  obtain rfl | ⟨s, rfl⟩ := h
  · exact ⟨_, rfl⟩
  · exact ⟨_, rfl⟩

theorem Value.text?_eq_some {v : Value} {s : String} : v.text? = some s ↔ v = .text s := by
  cases v with
  | scalar k => cases k <;> simp [Value.text?]
  | list _ | map _ => simp [Value.text?]

theorem Value.isText_iff {v : Value} {s : String} : v.isText s = true ↔ v = .text s := by
  unfold Value.isText
  cases v with
  | scalar k => cases k <;> simp [Value.same, Scalar.same, Scalar.quantity?]
  | list _ | map _ => simp [Value.same]

theorem Value.isAbsent_text {s : String} (hs : s ≠ "") : (Value.text s).isAbsent = false :=
  beq_eq_false_iff_ne.2 hs

/-- Only the empty text counts as absent. -/
theorem Value.orElse_text {s : String} (hs : s ≠ "") (v : Value) :
    (Value.text s).orElse v = .text s := by
  unfold Value.orElse
  rw [isAbsent_text hs, if_neg Bool.false_ne_true]

theorem Value.operand_int (n : Int) : (Value.int n).operand = floatOfInt n := rfl

/-- The largest float is below `10 ^ 309`. -/
theorem floatOfInt_tooLarge : floatOfInt (10 ^ 400) = .error .outOfRange := by
  unfold floatOfInt
  rw [if_pos (by decide +kernel)]

theorem Value.capped_eq_ok {ceiling : Value} {y : Float} (h : ceiling.operand = .ok y) (x : Float) :
    ∃ z, ceiling.capped x = .ok z := by
  obtain ⟨q, hq, hreal⟩ := Except.bind_eq_ok.1 h
  unfold Value.capped Value.cap Quantity.least
  rw [hq, Except.ok_bind, Except.pure_eq, Except.ok_bind]
  split
  · exact ⟨x, rfl⟩
  · exact ⟨y, hreal⟩

/-- Of two floats the one that is less as a number is so as a float. -/
theorem Quantity.less_float {x y : Float} :
    (Quantity.float x).less (.float y) = true ↔ x < y := by
  unfold Quantity.less Quantity.compare?
  dsimp only
  by_cases h : x < y
  · rw [if_pos h]
    exact iff_of_true rfl h
  · rw [if_neg h]
    refine iff_of_false ?_ h
    split
    · nofun
    · split <;> nofun

theorem Value.cap_float (c x : Float) : (Value.float c).cap x = .ok (.float (least c x)) := by
  show Except.ok ((Quantity.float c).least (.float x)) = _
  unfold Quantity.least KnowledgeGraph.least
  simp only [Quantity.less_float]
  split <;> rfl

/-- A scalar as it is read again: a not-a-number has the mark of all that are read. -/
def Scalar.asRead : Scalar → Scalar
  | .float x => if x.isNaN then .nan 0 else .float x
  | .nan _ => .nan 0
  | s => s

namespace Value

mutual

def asRead : Value → Value
  | .scalar s => .scalar s.asRead
  | .list items => .list (asReadItems items)
  | .map es => .map (asReadEntries es)

/-- The items of a list as they are read again. -/
def asReadItems : List Value → List Value
  | [] => []
  | v :: vs => asRead v :: asReadItems vs

/-- The entries of a map as they are read again. -/
def asReadEntries : List (Scalar × Value) → List (Scalar × Value)
  | [] => []
  | (k, v) :: es => (k, asRead v) :: asReadEntries es

end

@[simp] theorem asRead_null : Value.null.asRead = .null := by
  rw [asRead, Scalar.asRead]
  all_goals nofun

@[simp] theorem asRead_text (s : String) : (Value.text s).asRead = .text s := by
  rw [asRead, Scalar.asRead]
  all_goals nofun

@[simp] theorem asRead_list (items : List Value) :
    (Value.list items).asRead = .list (asReadItems items) := by rw [asRead]

@[simp] theorem asRead_map (es : Entries) : (Value.map es).asRead = .map (asReadEntries es) := by
  rw [asRead]

theorem asReadItems_eq_map (items : List Value) : asReadItems items = items.map asRead := by
  induction items with
  | nil => rw [asReadItems, List.map_nil]
  | cons v vs ih => rw [asReadItems, List.map_cons, ih]

theorem asReadEntries_eq_map (es : List (Scalar × Value)) :
    asReadEntries es = es.map fun e => (e.1, e.2.asRead) := by
  induction es with
  | nil => rw [asReadEntries, List.map_nil]
  | cons e es ih => rw [asReadEntries, List.map_cons, ih]

theorem toFloat_asRead_float (x : Float) : (Value.float x).asRead.toFloat = .ok x := by
  rw [asRead, Scalar.asRead]
  split
  · rename_i hnan
    exact congrArg Except.ok (eq_notANumber hnan).symm
  · rfl

end Value

/-! ## Values without a not-a-number -/

/-- Whether a scalar is a not-a-number. -/
def Scalar.isNaN : Scalar → Bool
  | .float x => x.isNaN
  | .nan _ => true
  | _ => false

theorem Scalar.asRead_eq_self {s : Scalar} (h : s.isNaN = false) : s.asRead = s := by
  cases s with
  | float x =>
    have hx : ¬ x.isNaN = true := Bool.eq_false_iff.1 h
    rw [asRead, if_neg hx]
  | nan mark => cases h
  | _ => rfl

namespace Value

mutual

/-- Whether there is a not-a-number in a value. -/
def hasNaN : Value → Bool
  | .scalar s => s.isNaN
  | .list items => hasNaNItems items
  | .map es => hasNaNEntries es

/-- Whether there is a not-a-number in the items of a list. -/
def hasNaNItems : List Value → Bool
  | [] => false
  | v :: vs => hasNaN v || hasNaNItems vs

/-- Whether there is a not-a-number in the values of a map. -/
def hasNaNEntries : List (Scalar × Value) → Bool
  | [] => false
  | (_, v) :: es => hasNaN v || hasNaNEntries es

end

mutual

theorem asRead_eq_self : ∀ {v : Value}, v.hasNaN = false → v.asRead = v
  | .scalar s, h => by
    rw [hasNaN] at h
    rw [asRead, Scalar.asRead_eq_self h]
  | .list items, h => by
    rw [hasNaN] at h
    rw [asRead, asReadItems_eq_self h]
  | .map es, h => by
    rw [hasNaN] at h
    rw [asRead, asReadEntries_eq_self h]

theorem asReadItems_eq_self : ∀ {vs : List Value}, hasNaNItems vs = false → asReadItems vs = vs
  | [], _ => by rw [asReadItems]
  | v :: vs, h => by
    rw [hasNaNItems, Bool.or_eq_false_iff] at h
    rw [asReadItems, asRead_eq_self h.1, asReadItems_eq_self h.2]

theorem asReadEntries_eq_self : ∀ {es : List (Scalar × Value)},
    hasNaNEntries es = false → asReadEntries es = es
  | [], _ => by rw [asReadEntries]
  | (k, v) :: es, h => by
    rw [hasNaNEntries, Bool.or_eq_false_iff] at h
    rw [asReadEntries, asRead_eq_self h.1, asReadEntries_eq_self h.2]

end

end Value

end KnowledgeGraph
