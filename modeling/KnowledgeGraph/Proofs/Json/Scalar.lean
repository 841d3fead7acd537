import KnowledgeGraph.Json.Parser
import KnowledgeGraph.Json.Printer
import KnowledgeGraph.Proofs.Number.Numeral
import KnowledgeGraph.Proofs.Value
import KnowledgeGraph.Proofs.Value.Writable

/-!
# Scalars come back

What is written for a scalar is read as the scalar, whatever follows that can follow a value: numbers
(`readScalar_float`, `readScalar_int`), words and texts (`readText?_flatMap`). A float is written with
so many digits that it comes back exactly, and a character as an escape of its own.
-/

namespace KnowledgeGraph.Json

/-! ## What follows -/

/-- What may follow a value: nothing, or what parts or closes. -/
def Ends (rest : List Char) : Prop := ∀ c ∈ rest.head?, c = ',' ∨ c = ']' ∨ c = '\x7d'

/-- No digit is ahead. -/
def NoDigit (rest : List Char) : Prop := ∀ c ∈ rest.head?, c.isDigit = false

variable {rest ds cs : List Char} {c : Char} {minus : Bool}

theorem noDigit_cons (h : c.isDigit = false) (cs : List Char) : NoDigit (c :: cs) := by
  rintro _ ⟨⟩
  exact h

theorem Ends.noDigit (h : Ends rest) : NoDigit rest := by
  intro c hc
  obtain rfl | rfl | rfl := h c hc <;> rfl

theorem ends_nil : Ends [] := nofun

theorem ends_comma : Ends (',' :: rest) := fun _ h => .inl (Option.some.inj h).symm

theorem ends_bracket : Ends (']' :: rest) := fun _ h => .inr (.inl (Option.some.inj h).symm)

theorem ends_brace : Ends ('\x7d' :: rest) := fun _ h => .inr (.inr (Option.some.inj h).symm)

theorem spanDigits_append (hds : ∀ c ∈ ds, c.isDigit = true) (hrest : NoDigit rest) :
    spanDigits (ds ++ rest) = (ds, rest) := by
  unfold spanDigits
  rw [List.takeWhile_append_of_pos hds, List.dropWhile_append_of_pos hds]
  cases rest with
  | nil => rw [List.takeWhile_nil, List.dropWhile_nil, List.append_nil]
  | cons c cs =>
    have hc : ¬ c.isDigit = true := Bool.eq_false_iff.1 (hrest c rfl)
    rw [List.takeWhile_cons_of_neg hc, List.dropWhile_cons_of_neg hc, List.append_nil]

/-! ## Numerals -/

/-- The digits before the point, of which a zero stands alone. -/
def wholePart : List Char → List Char × List Char
  | '0' :: rest => (['0'], rest)
  | cs => spanDigits cs

theorem readNumeral_eq (minus : Bool) (cs : List Char) : readNumeral minus cs =
    if (wholePart cs).1.isEmpty then .error .malformed
    else
      let fraction := readFraction (wholePart cs).2
      let power := readPower fraction.2
      if fraction.1.isEmpty && power.1.isNone then
        (wholeNumber minus (wholePart cs).1).map (·, power.2)
      else
        let x := Decimal.toFloat
          ⟨naturalOf ((wholePart cs).1 ++ fraction.1), power.1.getD 0 - fraction.1.length⟩
        .ok (.float (if minus then -x else x), power.2) := rfl

theorem wholePart_append (hds : AreLeading ds) (hrest : NoDigit rest) :
    wholePart (ds ++ rest) = (ds, rest) := by
  obtain rfl | hfirst := hds.first
  · rfl
  · have hhead : (ds ++ rest).head? = ds.head? := List.head?_append_of_ne_nil _ hds.ne_nil
    unfold wholePart
    split
    · rename_i heq
      rw [← hhead, heq] at hfirst
      exact absurd rfl hfirst
    · exact spanDigits_append hds.isDigit hrest

theorem readFraction_append (hds : ∀ c ∈ ds, c.isDigit = true) (hrest : NoDigit rest)
    (hpoint : rest.head? ≠ some '.') :
    readFraction ((if ds = [] then [] else '.' :: ds) ++ rest) = (ds, rest) := by
  split
  · rename_i hnil
    subst hnil
    unfold readFraction
    rw [List.nil_append]
    split
    · exact absurd rfl hpoint
    · rfl
  · rename_i hne
    unfold readFraction
    simp only [List.cons_append, spanDigits_append hds hrest]
    split
    · rename_i heq
      exact absurd (Prod.mk.inj heq).1 hne
    · rfl

theorem readPower_ends (h : Ends rest) : readPower rest = (none, rest) := by
  unfold readPower
  split
  · rename_i c cs
    have hc : (c == 'e' || c == 'E') = false := by
      obtain rfl | rfl | rfl := h c rfl <;> rfl
    rw [hc, if_neg Bool.false_ne_true]
  · rfl

theorem writeExponent_eq (k : Int) : ∃ ds, ds ≠ [] ∧ (∀ c ∈ ds, c.isDigit = true) ∧
    naturalOf ds = k.natAbs ∧
      NumberStyle.writeExponent k = 'e' :: (if k < 0 then '-' else '+') :: ds := by
  have hdigits := areLeading_toDigits k.natAbs
  by_cases hshort : (Nat.toDigits 10 k.natAbs).length < 2
  · refine ⟨'0' :: Nat.toDigits 10 k.natAbs, List.cons_ne_nil _ _,
      List.forall_mem_cons.2 ⟨rfl, hdigits.isDigit⟩, naturalOf_toDigits k.natAbs, ?_⟩
    unfold NumberStyle.writeExponent
    dsimp only
    rw [if_pos hshort]
  · refine ⟨_, hdigits.ne_nil, hdigits.isDigit, naturalOf_toDigits _, ?_⟩
    unfold NumberStyle.writeExponent
    dsimp only
    rw [if_neg hshort]

theorem readPower_append (h : Ends rest) (power : Option Int) :
    readPower (power.elim [] NumberStyle.writeExponent ++ rest) = (power, rest) := by
  cases power with
  | none => exact readPower_ends h
  | some k =>
    obtain ⟨ds, hne, hdigits, hvalue, htext⟩ := writeExponent_eq k
    rw [Option.elim_some, htext]
    have hsplit : splitSign ((if k < 0 then '-' else '+') :: (ds ++ rest)) =
        (decide (k < 0), ds ++ rest) := by
      split
      · rename_i hneg
        rw [decide_eq_true hneg]
        rfl
      · rename_i hneg
        rw [decide_eq_false hneg]
        rfl
    unfold readPower
    rw [List.cons_append, List.cons_append]
    dsimp only
    rw [hsplit]
    dsimp only
    rw [if_pos (by rfl), spanDigits_append hdigits h.noDigit]
    split
    · rename_i heq
      exact absurd (Prod.mk.inj heq).1 hne
    · rename_i heq
      obtain ⟨rfl, rfl⟩ := Prod.mk.inj heq
      rw [hvalue]
      simp only [decide_eq_true_eq]
      congr 2
      split <;> omega

theorem power_noDigit (h : Ends rest) (power : Option Int) :
    NoDigit (power.elim [] NumberStyle.writeExponent ++ rest) ∧
      (power.elim [] NumberStyle.writeExponent ++ rest).head? ≠ some '.' := by
  cases power with
  | none =>
    refine ⟨h.noDigit, fun hpoint => ?_⟩
    obtain heq | heq | heq := h '.' hpoint <;> exact absurd heq (by decide)
  | some k =>
    obtain ⟨ds, -, -, -, htext⟩ := writeExponent_eq k
    rw [Option.elim_some, htext]
    exact ⟨noDigit_cons rfl _, fun heq => absurd (Option.some.inj heq) (by decide)⟩

/-- A numeral is read as a float if it has a fraction or an exponent. -/
theorem readNumeral_text {n : Numeral} (hn : n.IsPointed) (hrest : Ends rest) (minus : Bool) :
    readNumeral minus (n.text ++ rest) =
      .ok (.float (if minus then -n.decimal.toFloat else n.decimal.toFloat), rest) := by
  obtain ⟨hdigit, hpoint⟩ := power_noDigit hrest n.power
  have hwhole : NoDigit ((if n.fraction = [] then [] else '.' :: n.fraction) ++
      (n.power.elim [] NumberStyle.writeExponent ++ rest)) := by
    split
    · exact hdigit
    · exact noDigit_cons rfl _
  have hpointed : (n.fraction.isEmpty && n.power.isNone) = false := by
    obtain hfraction | hpower := hn.pointed
    · rw [List.isEmpty_eq_false_iff.2 hfraction, Bool.false_and]
    · rw [Option.isNone_eq_false_iff.2 (Option.isSome_iff_ne_none.2 hpower), Bool.and_false]
  unfold Numeral.text
  rw [List.append_assoc, List.append_assoc, readNumeral_eq, wholePart_append hn.whole hwhole,
    if_neg (by simpa using hn.whole.ne_nil), readFraction_append hn.fraction hdigit hpoint]
  dsimp only
  rw [readPower_append hrest, hpointed, if_neg Bool.false_ne_true]
  rfl

theorem readNumeral_whole (hds : AreLeading ds) (hrest : Ends rest) (minus : Bool) :
    readNumeral minus (ds ++ rest) = (wholeNumber minus ds).map (·, rest) := by
  obtain ⟨hdigit, hpoint⟩ := power_noDigit hrest none
  have hfraction : readFraction rest = ([], rest) :=
    readFraction_append (List.forall_mem_nil _) hdigit hpoint
  rw [readNumeral_eq, wholePart_append hds hrest.noDigit, if_neg (by simpa using hds.ne_nil)]
  dsimp only
  rw [hfraction]
  dsimp only
  rw [readPower_ends hrest]
  rfl

/-! ## Numbers -/

/-- What starts with a digit, after a minus or without one, is read as a numeral. -/
theorem readScalar_of_isDigit (hc : c.isDigit = true) (cs : List Char) :
    readScalar (c :: cs) = readNumeral false (c :: cs) ∧
      readScalar ('-' :: c :: cs) = readNumeral true (c :: cs) := by
  have hne {d : Char} (hd : d.isDigit = false) : c ≠ d := by
    rintro rfl
    rw [hd] at hc
    cases hc
  constructor
  · unfold readScalar
    split
    case h_8 => rfl
    all_goals
      rename_i heq
      exact absurd (List.cons.inj heq).1 (hne (by rfl))
  · unfold readScalar
    split
    case h_6 heq => exact absurd (List.cons.inj (List.cons.inj heq).2).1 (hne (by rfl))
    case h_7 heq => rw [(List.cons.inj heq).2]
    case h_8 hminus => exact (hminus _ rfl).elim
    all_goals
      rename_i heq
      exact absurd (List.cons.inj heq).1 (by decide)

theorem readScalar_signed (hds : AreLeading ds) (minus : Bool) (cs : List Char) :
    readScalar ((if minus then '-' :: (ds ++ cs) else ds ++ cs)) = readNumeral minus (ds ++ cs) := by
  obtain ⟨c, ds, rfl⟩ := List.exists_cons_of_ne_nil hds.ne_nil
  have hc := hds.isDigit c List.mem_cons_self
  cases minus with
  | false => exact (readScalar_of_isDigit hc _).1
  | true => exact (readScalar_of_isDigit hc _).2

theorem readScalar_finite {x : Float} {e : Exact} (he : Exact.ofFloat? x = some e)
    (hrest : Ends rest) :
    readScalar ((NumberStyle.json.write x).toList ++ rest) = .ok (.float x, rest) := by
  obtain ⟨n, hpointed, htext, hvalue⟩ :=
    @NumberStyle.exists_numeral .json rfl (Decimal.shortest e x)
  have hwrite : (NumberStyle.json.write x).toList ++ rest =
      if e.negative then '-' :: (n.text ++ rest) else n.text ++ rest := by
    unfold NumberStyle.write
    rw [he, ← htext]
    dsimp only
    rw [String.toList_ofList]
    cases e.negative <;> rfl
  have hnumeral := readNumeral_text hpointed hrest e.negative
  rw [Decimal.signed_toFloat he hvalue] at hnumeral
  rw [hwrite, ← hnumeral]
  unfold Numeral.text
  rw [List.append_assoc]
  exact readScalar_signed hpointed.whole _ _

theorem write_of_isNaN {x : Float} (h : x.isNaN = true) : NumberStyle.json.write x = "NaN" := by
  have hnone : Exact.ofFloat? x = none := by
    rw [eq_notANumber h]
    rfl
  unfold NumberStyle.write
  rw [hnone]
  exact if_pos h

theorem readScalar_float (x : Float) (hrest : Ends rest) :
    readScalar ((NumberStyle.json.write x).toList ++ rest) =
      .ok (.scalar (Scalar.float x).asRead, rest) := by
  by_cases hnan : x.isNaN = true
  · have hread : (Scalar.float x).asRead = .nan 0 := if_pos hnan
    rw [hread, write_of_isNaN hnan]
    rfl
  · have hread : (Scalar.float x).asRead = .float x := if_neg hnan
    rw [hread]
    cases hx : Exact.ofFloat? x with
    | some e => exact readScalar_finite hx hrest
    | none =>
      obtain rfl | rfl := eq_infinity hx (Bool.eq_false_iff.2 hnan)
      · have hwrite : NumberStyle.json.write infinity = "Infinity" := by decide +kernel
        rw [hwrite]
        rfl
      · have hwrite : NumberStyle.json.write (-infinity) = "-Infinity" := by decide +kernel
        rw [hwrite]
        rfl

theorem toList_toString (n : Int) : (toString n).toList =
    if decide (n < 0) then '-' :: Nat.toDigits 10 n.natAbs else Nat.toDigits 10 n.natAbs := by
  cases n with
  | ofNat k =>
    rw [if_neg (by simp)]
    exact Nat.toList_repr
  | negSucc k =>
    rw [if_pos (by simp [Int.negSucc_lt_zero])]
    exact (String.toList_append).trans (congrArg (['-'] ++ ·) Nat.toList_repr)

/-- A number has at most so many digits as are written exactly if it is below the limit. -/
theorem length_toDigits_le_digitLimit {n : ℕ} :
    (Nat.toDigits 10 n).length ≤ digitLimit ↔ n < numberLimit := by
  have hpos : 0 < digitLimit := by decide
  unfold numberLimit
  generalize digitLimit = k at hpos ⊢
  exact Nat.length_toDigits_le_iff (by decide) hpos

theorem readScalar_int {n : Int} (hn : (Scalar.int n).isWritable = true) (hrest : Ends rest) :
    readScalar ((toString n).toList ++ rest) = .ok (.int n, rest) := by
  have hdigits := areLeading_toDigits n.natAbs
  have htext : (toString n).toList ++ rest =
      if decide (n < 0) then '-' :: (Nat.toDigits 10 n.natAbs ++ rest)
        else Nat.toDigits 10 n.natAbs ++ rest := by
    rw [toList_toString]
    split <;> rfl
  have hlength := length_toDigits_le_digitLimit.2 (Value.isWritable_scalarInt.1 hn)
  rw [htext, readScalar_signed hdigits, readNumeral_whole hdigits hrest]
  unfold wholeNumber
  rw [if_neg (Nat.not_lt.2 hlength), naturalOf_toDigits]
  have hsign : (if decide (n < 0) then -(n.natAbs : Int) else n.natAbs) = n := by
    split <;> rename_i hneg <;> rw [decide_eq_true_eq] at hneg <;> omega
  exact congrArg (fun k => Except.ok (Value.int k, rest)) hsign

/-- **Scalars.** What is written for a scalar other than a text is read as the scalar. -/
theorem readScalar_writeScalar {s : Scalar} (hs : s.isWritable = true) (htext : s.text? = none)
    (hrest : Ends rest) :
    readScalar ((writeScalar s).toList ++ rest) = .ok (.scalar s.asRead, rest) := by
  cases s with
  | null => rfl
  | bool b => cases b <;> rfl
  | int n => exact readScalar_int hs hrest
  | float x => exact readScalar_float x hrest
  | nan mark =>
    have hwrite : writeScalar (.nan mark) = "NaN" := rfl
    rw [hwrite]
    rfl
  | text _ => cases htext

/-! ## Texts -/

theorem hex_one {n : ℕ} (hn : n < 16) : hex 1 n = [Nat.digitChar n] := by
  unfold hex
  rw [Nat.toDigits_of_lt_base hn]
  rfl

theorem hex_succ {width : ℕ} (hwidth : 0 < width) (n : ℕ) :
    hex (width + 1) n = hex width (n / 16) ++ [Nat.digitChar (n % 16)] := by
  unfold hex
  dsimp only
  rw [Nat.toDigits_eq_if (by decide)]
  split
  · rename_i hn
    rw [Nat.div_eq_of_lt hn, Nat.mod_eq_of_lt hn]
    obtain ⟨k, rfl⟩ := Nat.exists_eq_succ_of_ne_zero hwidth.ne'
    exact congrArg (· ++ _) (List.replicate_succ' ..)
  · rw [List.length_append, List.length_singleton, Nat.add_sub_add_right, List.append_assoc]

theorem hexDigit?_digitChar : ∀ d < 16, Text.hexDigit? (Nat.digitChar d) = some d := by decide

/-- A number below 65536 is written with four digits that spell it. -/
theorem hex_spells {n : ℕ} (hn : n < 0x10000) :
    ∃ a b c d, hex 4 n = [a, b, c, d] ∧ hex4? a b c d = some n := by
  have hfirst : n / 16 / 16 / 16 < 16 := by omega
  have hdigit (k : ℕ) := hexDigit?_digitChar (k % 16) (Nat.mod_lt k (by decide))
  rw [hex_succ (by decide), hex_succ (by decide), hex_succ (by decide), hex_one hfirst]
  refine ⟨_, _, _, _, rfl, ?_⟩
  unfold hex4?
  rw [hexDigit?_digitChar _ hfirst, hdigit, hdigit, hdigit]
  refine congrArg some ?_
  omega

theorem readTextAfter?_plain (hlow : ¬ c.val < 32) (hquote : c ≠ '"') (hslash : c ≠ '\\') :
    readTextAfter? none (c :: rest) = (readTextAfter? none rest).map fun r => (c :: r.1, r.2) := by
  rw [readTextAfter?.eq_5 none c rest hquote (fun _ _ _ _ _ h => absurd h hslash)
    fun _ _ h => absurd h hslash, if_neg (by simp [hlow, hslash])]
  cases readTextAfter? none rest <;> rfl

theorem readTextAfter?_letter {d : Char} (h : unescape? d = some c) :
    readTextAfter? none ('\\' :: d :: rest) =
      (readTextAfter? none rest).map fun r => (c :: r.1, r.2) := by
  have hletter : d ≠ 'u' := by
    rintro rfl
    cases h
  rw [readTextAfter?.eq_4 none d rest fun _ _ _ _ _ h => absurd h hletter, h]
  cases readTextAfter? none rest <;> rfl

section

variable {n high low : ℕ}

theorem readTextAfter?_code (hn : n < 0x10000) (hhigh : Text.isHighSurrogate n = false) :
    readTextAfter? none ('\\' :: 'u' :: hex 4 n ++ rest) =
      (readTextAfter? none rest).map fun r => (Text.charOfCode n :: r.1, r.2) := by
  obtain ⟨a, b, c, d, hdigits, hspell⟩ := hex_spells hn
  rw [hdigits]
  refine (readTextAfter?.eq_3 none a b c d rest).trans ?_
  rw [hspell]
  dsimp only [bind, Option.bind]
  rw [hhigh, Bool.false_and, if_neg Bool.false_ne_true]
  cases readTextAfter? none rest <;> rfl

theorem readTextAfter?_pair (hhigh : high < 0x10000) (hlow : low < 0x10000)
    (hhalf : Text.isHighSurrogate high = true) (hhalf' : Text.isLowSurrogate low = true) :
    readTextAfter? none ('\\' :: 'u' :: hex 4 high ++ '\\' :: 'u' :: hex 4 low ++ rest) =
      (readTextAfter? none rest).map fun r => (Text.ofSurrogates high low :: r.1, r.2) := by
  obtain ⟨a, b, c, d, hdigits, hspell⟩ := hex_spells hhigh
  obtain ⟨a', b', c', d', hdigits', hspell'⟩ := hex_spells hlow
  have hahead : lowSurrogate? ('\\' :: 'u' :: a' :: b' :: c' :: d' :: rest) = some low := by
    refine (congrArg (Option.filter Text.isLowSurrogate) hspell').trans ?_
    exact Option.filter_some_pos hhalf'
  rw [hdigits, hdigits']
  refine (readTextAfter?.eq_3 none a b c d
    ('\\' :: 'u' :: a' :: b' :: c' :: d' :: rest)).trans ?_
  rw [hspell]
  dsimp only [bind, Option.bind]
  rw [hhalf, hahead, if_pos (by rfl)]
  refine (readTextAfter?.eq_3 (some high) a' b' c' d' rest).trans ?_
  rw [hspell']
  cases readTextAfter? none rest <;> rfl

end

theorem toNat_valid (c : Char) : c.toNat < 0xd800 ∨ 0xdfff < c.toNat ∧ c.toNat < 0x110000 := c.valid

/-- **Characters.** What is written for a character is read as the character. -/
theorem readTextAfter?_escape (c : Char) (rest : List Char) :
    readTextAfter? none (escape c ++ rest) =
      (readTextAfter? none rest).map fun r => (c :: r.1, r.2) := by
  unfold escape
  split
  · rename_i hc
    obtain hc | hc := (Bool.or_eq_true _ _).mp hc <;> obtain rfl := beq_iff_eq.1 hc <;>
      exact readTextAfter?_letter rfl
  rename_i hmark
  rw [Bool.or_eq_true, beq_iff_eq, beq_iff_eq, not_or] at hmark
  iterate 5
    split
    · rename_i hc
      obtain rfl := beq_iff_eq.1 hc
      exact readTextAfter?_letter rfl
  have hvalid := toNat_valid c
  split
  · rename_i hprinted
    rw [Bool.and_eq_true, decide_eq_true_iff] at hprinted
    exact readTextAfter?_plain (UInt32.not_lt.2 hprinted.1) hmark.1 hmark.2
  split
  · rename_i hshort
    have hchar : Text.charOfCode c.toNat = c := by
      unfold Text.charOfCode Text.isHighSurrogate Text.isLowSurrogate
      rw [if_neg, Char.ofNat_toNat]
      simp only [Bool.or_eq_true, Bool.and_eq_true, decide_eq_true_eq]
      omega
    rw [readTextAfter?_code hshort, hchar]
    simp only [Text.isHighSurrogate, Bool.and_eq_false_iff, decide_eq_false_iff_not]
    omega
  · -- Beyond the basic plane a character is a pair.
    dsimp only
    have hchar : Text.ofSurrogates (0xd800 + (c.toNat - 0x10000) / 0x400)
        (0xdc00 + (c.toNat - 0x10000) % 0x400) = c := by
      refine (congrArg Char.ofNat ?_).trans (Char.ofNat_toNat c)
      omega
    rw [readTextAfter?_pair (by omega) (by omega), hchar] <;>
      simp only [Text.isHighSurrogate, Text.isLowSurrogate, Bool.and_eq_true, decide_eq_true_eq] <;>
      omega

theorem readText?_flatMap (cs rest : List Char) :
    readText? (cs.flatMap escape ++ '"' :: rest) = some (cs, rest) := by
  unfold readText?
  induction cs with
  | nil => rfl
  | cons c cs ih =>
    rw [List.flatMap_cons, List.append_assoc, readTextAfter?_escape, ih]
    rfl

end KnowledgeGraph.Json
