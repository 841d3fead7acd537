import KnowledgeGraph.Number.Reading
import Mathlib.Data.List.DropRight
import Mathlib.Data.List.TakeWhile

/-!
# Two readers of numbers

A text that the loose reader takes for a number is the same number for the other reader, unless there
are underscores in it that do not stand between two digits; these the other reader refuses
(`readNumber?_of_readLoose?`). A number is spelled with visible characters of ASCII and no underscores
(`isPlain_of_readSigned?`), so all that the two readers do differently is to take away what stands
around the number or within.
-/

namespace KnowledgeGraph

open Text

variable {cs ds before after : List Char} {c : Char} {s : String} {x : Float}

/-! ## Characters of a number -/

/-- A character of ASCII that is seen. -/
def IsVisible (c : Char) : Prop := 32 < c.val ∧ c.val < 127

/-- Visible characters without an underscore. -/
def IsPlain (cs : List Char) : Prop := ∀ c ∈ cs, IsVisible c ∧ c ≠ '_'

instance (c : Char) : Decidable (IsVisible c) :=
  inferInstanceAs (Decidable (32 < c.val ∧ c.val < 127))

instance (cs : List Char) : Decidable (IsPlain cs) :=
  List.decidableBAll (fun c => IsVisible c ∧ c ≠ '_') cs

theorem isPlain_append : IsPlain (cs ++ ds) ↔ IsPlain cs ∧ IsPlain ds := List.forall_mem_append

theorem isPlain_cons : IsPlain (c :: cs) ↔ (IsVisible c ∧ c ≠ '_') ∧ IsPlain cs :=
  List.forall_mem_cons

theorem isPlain_of_isDigit (h : ∀ c ∈ cs, c.isDigit = true) : IsPlain cs := by
  intro c hc
  have hdigit := h c hc
  refine ⟨?_, fun hunderscore => ?_⟩
  · unfold IsVisible
    simp only [Char.isDigit, Bool.and_eq_true, decide_eq_true_eq] at hdigit
    grind
  · rw [hunderscore] at hdigit
    exact absurd hdigit (by decide)

theorem isPlain_of_map_toLower (h : IsPlain (cs.map Char.toLower)) : IsPlain cs := by
  intro c hc
  obtain ⟨hvisible, hlower⟩ := h c.toLower (List.mem_map_of_mem hc)
  refine ⟨?_, fun hunderscore => ?_⟩
  · unfold IsVisible at hvisible ⊢
    unfold Char.toLower at hvisible
    split at hvisible
    · grind
    · exact hvisible
  · rw [hunderscore] at hlower
    exact hlower (by decide)

theorem isPlain_of_word (word : List Char) (hword : IsPlain word)
    (h : String.ofList (cs.map Char.toLower) = String.ofList word) : IsPlain cs := by
  rw [String.ofList_inj] at h
  exact isPlain_of_map_toLower (h ▸ hword)

theorem isPlain_of_splitSign (h : IsPlain (splitSign cs).2) : IsPlain cs := by
  unfold splitSign at h
  split at h
  · exact isPlain_cons.2 ⟨by decide, h⟩
  · exact isPlain_cons.2 ⟨by decide, h⟩
  · exact h

theorem isPlain_of_readExponent? {k : Int} (h : readExponent? cs = some k) : IsPlain cs := by
  cases cs with
  | nil => exact List.forall_mem_nil _
  | cons c rest =>
    unfold readExponent? at h
    dsimp only at h
    split at h
    · rename_i hexponent
      simp only [Bool.and_eq_true, Bool.or_eq_true, beq_iff_eq, List.all_eq_true] at hexponent
      obtain ⟨⟨hletter, -⟩, hdigits⟩ := hexponent
      refine isPlain_cons.2 ⟨?_, isPlain_of_splitSign (isPlain_of_isDigit hdigits)⟩
      obtain rfl | rfl := hletter <;> decide
    · cases h

theorem isPlain_takeWhile (cs : List Char) : IsPlain (cs.takeWhile Char.isDigit) :=
  isPlain_of_isDigit fun _ => List.mem_takeWhile_imp

theorem isPlain_of_readDecimal? {d : Decimal} (h : readDecimal? cs = some d) : IsPlain cs := by
  rw [← List.takeWhile_append_dropWhile (p := Char.isDigit) (l := cs)]
  refine isPlain_append.2 ⟨isPlain_takeWhile cs, ?_⟩
  unfold readDecimal? at h
  dsimp only at h
  split at h
  · rename_i more hpoint
    split at h
    · cases h
    · obtain ⟨k, hexponent, -⟩ := Option.map_eq_some_iff.1 h
      rw [hpoint, ← List.takeWhile_append_dropWhile (p := Char.isDigit) (l := more)]
      refine isPlain_cons.2 ⟨by decide, ?_⟩
      exact isPlain_append.2 ⟨isPlain_takeWhile more, isPlain_of_readExponent? hexponent⟩
  · split at h
    · cases h
    · obtain ⟨k, hexponent, -⟩ := Option.map_eq_some_iff.1 h
      exact isPlain_of_readExponent? hexponent

/-- A number is spelled with plain characters. -/
theorem isPlain_of_readSigned? (h : readSigned? cs = some x) : IsPlain cs := by
  refine isPlain_of_splitSign ?_
  unfold readSigned? at h
  dsimp only at h
  obtain ⟨y, hy, -⟩ := Option.map_eq_some_iff.1 h
  split at hy
  · rename_i hword
    rw [Bool.or_eq_true, decide_eq_true_eq, decide_eq_true_eq] at hword
    obtain hword | hword := hword
    · exact isPlain_of_word "inf".toList (by decide) hword
    · exact isPlain_of_word "infinity".toList (by decide) hword
  · split at hy
    · rename_i hword
      exact isPlain_of_word "nan".toList (by decide) hword
    · obtain ⟨d, hd, -⟩ := Option.map_eq_some_iff.1 hy
      exact isPlain_of_readDecimal? hd

/-! ## Around a number -/

theorem strip_eq {blank : Char → Bool} (hbefore : ∀ c ∈ before, blank c = true)
    (hcs : ∀ c ∈ cs, blank c = false) (hafter : ∀ c ∈ after, blank c = true) :
    (((before ++ (cs ++ after)).dropWhile blank).reverse.dropWhile blank).reverse = cs := by
  have hkept {xs : List Char} (hxs : ∀ c ∈ xs, blank c = false) : xs.dropWhile blank = xs := by
    cases xs with
    | nil => rfl
    | cons c _ => exact List.dropWhile_cons_of_neg (ne_true_of_eq_false (hxs c List.mem_cons_self))
  rw [List.dropWhile_append_of_pos hbefore]
  cases cs with
  | nil => rw [List.nil_append, List.dropWhile_eq_nil_iff.2 hafter]; rfl
  | cons c rest =>
    have hc := ne_true_of_eq_false (hcs c List.mem_cons_self)
    have hreverse : ∀ d ∈ (c :: rest).reverse, blank d = false :=
      fun d hd => hcs d (List.mem_reverse.1 hd)
    rw [List.cons_append, List.dropWhile_cons_of_neg hc, ← List.cons_append, List.reverse_append,
      List.dropWhile_append_of_pos fun d hd => hafter d (List.mem_reverse.1 hd), hkept hreverse,
      List.reverse_reverse]

theorem asciiForm_of_isVisible (h : IsVisible c) : asciiForm c = c := by
  unfold asciiForm
  rw [if_pos h.2]

theorem isNumberBlank_of_isVisible (h : IsVisible c) : isNumberBlank c = false := by
  have hspace : c = ' ' ↔ c.val = 32 := Char.ext_iff
  unfold IsVisible at h
  unfold isNumberBlank
  grind

theorem isNumberBlank_of_isSpace (h : isSpace c = true) : isNumberBlank (asciiForm c) = true := by
  unfold isSpace at h
  rw [Bool.and_eq_true] at h
  obtain ⟨hblank, hseparator⟩ := h
  unfold asciiForm
  rw [if_pos hblank]
  split
  · have hspace : c = ' ' ↔ c.val = 32 := Char.ext_iff
    unfold isBlank at hblank
    unfold isNumberBlank
    grind
  · rfl

theorem readNumber?_eq (hbefore : ∀ c ∈ before, isSpace c = true) (hcs : ∀ c ∈ cs, IsVisible c)
    (hafter : ∀ c ∈ after, isSpace c = true) (hs : s.toList = before ++ (cs ++ after)) :
    readNumber? s = (dropUnderscores? false cs).bind readSigned? := by
  have hspaces {xs : List Char} (hxs : ∀ c ∈ xs, isSpace c = true) :
      ∀ c ∈ xs.map asciiForm, isNumberBlank c = true := by
    intro c hc
    obtain ⟨d, hd, rfl⟩ := List.mem_map.1 hc
    exact isNumberBlank_of_isSpace (hxs d hd)
  have hsame : cs.map asciiForm = cs := by
    rw [List.map_congr_left fun c hc => asciiForm_of_isVisible (hcs c hc), List.map_id']
  unfold readNumber?
  dsimp only
  rw [hs, List.map_append, List.map_append, hsame, strip_eq (hspaces hbefore)
    (fun c hc => isNumberBlank_of_isVisible (hcs c hc)) (hspaces hafter)]
  rfl

/-! ## Underscores -/

theorem dropUnderscores?_of_not_mem (h : '_' ∉ cs) (afterDigit : Bool) :
    dropUnderscores? afterDigit cs = some cs := by
  induction cs generalizing afterDigit with
  | nil => rfl
  | cons c rest ih =>
    rw [List.mem_cons, not_or] at h
    rw [dropUnderscores?, ih h.2]
    · rfl
    · exact fun hc => h.1 hc.symm

/-- Where underscores are dropped, all of them are, and nothing else. -/
theorem eq_filter_of_dropUnderscores? {afterDigit : Bool}
    (h : dropUnderscores? afterDigit cs = some ds) : ds = cs.filter (· != '_') := by
  induction afterDigit, cs using dropUnderscores?.induct generalizing ds with
  | case1 _ =>
    cases h
    rfl
  | case2 afterDigit d rest hdigit ih =>
    rw [dropUnderscores?, if_pos hdigit] at h
    exact ih h
  | case3 afterDigit d rest hdigit =>
    rw [dropUnderscores?, if_neg hdigit] at h
    cases h
  | case4 _ => cases h
  | case5 _ c rest hc ih =>
    rw [dropUnderscores?] at h
    · obtain ⟨es, hes, rfl⟩ := Option.map_eq_some_iff.1 h
      rw [ih hes, List.filter_cons_of_pos (p := (· != '_')) (bne_iff_ne.2 hc)]
    · exact hc

/-! ## Both readers -/

/-- Whether the underscores of a text stand between digits. -/
def isGrouped (s : String) : Bool := (dropUnderscores? false s.toList).isSome

/-- **Two readers.** A number that is given loosely is the same for the other reader, unless there are
underscores in it that do not stand between digits. -/
theorem readNumber?_of_readLoose? (h : readLoose? s = some x) :
    readNumber? s = if isGrouped s then some x else none := by
  unfold readLoose? at h
  obtain h | ⟨-, h⟩ := Option.or_eq_some_iff.1 h
  · -- Spaces are taken away, and nothing in between is an underscore.
    have hplain := isPlain_of_readSigned? h
    let rest := s.toList.dropWhile isSpace
    let before := s.toList.takeWhile isSpace
    let after := rest.rtakeWhile isSpace
    have hs : s.toList = before ++ (trimSpaces s.toList ++ after) := by
      rw [show trimSpaces s.toList = rest.rdropWhile isSpace from rfl,
        List.rdropWhile_append_rtakeWhile, List.takeWhile_append_dropWhile]
    have hbefore : ∀ c ∈ before, isSpace c = true := fun _ => List.mem_takeWhile_imp
    have hafter : ∀ c ∈ after, isSpace c = true := fun _ => List.mem_rtakeWhile_imp
    have hnone : '_' ∉ s.toList := by
      rw [hs, List.mem_append, List.mem_append]
      rintro (hmem | hmem | hmem)
      · exact absurd (hbefore _ hmem) (by decide)
      · exact (hplain _ hmem).2 rfl
      · exact absurd (hafter _ hmem) (by decide)
    have hwithin : '_' ∉ trimSpaces s.toList := fun hmem => (hplain _ hmem).2 rfl
    rw [readNumber?_eq hbefore (fun c hc => (hplain c hc).1) hafter hs,
      dropUnderscores?_of_not_mem hwithin, isGrouped, dropUnderscores?_of_not_mem hnone]
    exact h
  · -- Nothing stands around the number, and without underscores it is plain.
    obtain ⟨ds, hds, hread⟩ := Option.bind_eq_some_iff.1 h
    unfold joinGroups? at hds
    split at hds
    · cases hds
    · cases hds
      have hplain := isPlain_of_readSigned? hread
      have hvisible : ∀ c ∈ s.toList, IsVisible c := by
        intro c hc
        by_cases hunderscore : c = '_'
        · rw [hunderscore]
          decide
        · exact (hplain c (List.mem_filter.2 ⟨hc, bne_iff_ne.2 hunderscore⟩)).1
      have hs : s.toList = [] ++ (s.toList ++ []) := (List.append_nil _).symm
      rw [readNumber?_eq (List.forall_mem_nil _) hvisible (List.forall_mem_nil _) hs]
      unfold isGrouped
      cases hdropped : dropUnderscores? false s.toList with
      | none => rfl
      | some ds =>
        rw [eq_filter_of_dropUnderscores? hdropped]
        exact hread

end KnowledgeGraph
