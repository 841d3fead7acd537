import KnowledgeGraph.Proofs.Pattern.Detection
import KnowledgeGraph.Proofs.Text.Regex
import Mathlib.Data.List.DropRight

/-!
# Where detectors match

Every match of a detector begins with a character that is no blank (`opens_of_mem_all`), and no blank is
a word character (`isWord_of_isBlank`). So what is left of a match without the blanks around it stands
where the match does (`areLocated_matches`), and blanks in front of a text only move the matches
(`matches_append`). The patterns in a text are the reports of the detectors that match there
(`codePatterns_reports`), whence the same detectors report the same matches with blanks in front
(`codePatterns_located`).
-/

namespace KnowledgeGraph

open Text (Regex isBlank isWord inRanges trim)

def isInk (c : Char) : Bool := !isBlank c

deriving instance DecidableEq for CodeMatch

/-- A match farther on in a text, behind some characters. -/
def CodeMatch.moved (m : CodeMatch) (passed : List Char) : CodeMatch :=
  ⟨m.text, passed.count '\n' + m.line, passed.length + m.offset⟩

/-- Matches that stand in a text: each is a part of it and not empty, is found at its place and on its
line, and ends before the next one begins. -/
structure AreLocated (text : List Char) (ms : List CodeMatch) : Prop where
  nonempty : ∀ m ∈ ms, m.text ≠ []
  found : ∀ m ∈ ms, m.text <+: text.drop m.offset
  line : ∀ m ∈ ms, m.line = 1 + (text.take m.offset).count '\n'
  increasing : ms.Pairwise fun m m' => m.offset < m'.offset
  apart : ms.Pairwise fun m m' => m.offset + m.text.length ≤ m'.offset

/-- The report of a detector on its matches: there are some, the pattern and its metadata give their
number, and each is an instance. -/
structure IsReport (d : Detector) (p : Pattern) (ms : List CodeMatch) : Prop where
  nonempty : ms ≠ []
  shape : ∃ density language, p.shape = .code d.name d.category ms.length density language
  description : p.shape.description Slot.plain = .ok (.record [("name", .text d.name),
    ("type", .text PatternType.code.label), ("category", .text d.category.label),
    ("matches", .count ms.length)])
  frequency : p.shape.metadata.field "frequency" = .ok (.count ms.length)
  instances : p.instances = ms.map fun m => .raw m.toValue

/-- The detectors that match somewhere in a text. -/
def matching (text : List Char) : List Detector :=
  Detector.all.filter fun d => !(d.matches text).isEmpty

/-! ## Blanks -/

section

variable {c : Char} {cs : List Char}

theorem inRanges_of_apart {rs rs' : List (ℕ × ℕ)} (h : inRanges rs c = true)
    (hapart : ∀ r ∈ rs, ∀ r' ∈ rs', r.2 < r'.1 ∨ r'.2 < r.1) : inRanges rs' c = false := by
  unfold inRanges at h ⊢
  obtain ⟨r, hr, hin⟩ := List.any_eq_true.1 h
  rw [List.any_eq_false]
  intro r' hr' hin'
  have := hapart r hr r' hr'
  simp only [Bool.and_eq_true, decide_eq_true_eq] at hin hin'
  omega

theorem isWord_of_isBlank (h : isBlank c = true) : isWord c = false := by
  unfold isBlank at h
  unfold isWord
  split at h
  · rename_i hascii
    rw [if_pos hascii, Bool.or_eq_false_iff]
    simp only [Bool.or_eq_true, Bool.and_eq_true, decide_eq_true_eq] at h
    refine ⟨?_, beq_false_of_ne fun hunderscore => ?_⟩
    · unfold Char.isAlphanum Char.isAlpha Char.isUpper Char.isLower Char.isDigit
      grind
    · rw [hunderscore] at h
      exact absurd h (by decide)
  · rename_i hbeyond
    rw [if_neg hbeyond]
    exact inRanges_of_apart h (by decide +kernel)

theorem isInk_of_isInitial (h : Detector.isInitial c = true) : isInk c = true := by
  simp only [Detector.isInitial, Bool.or_eq_true, beq_iff_eq] at h
  obtain (halpha | rfl) | rfl := h
  · unfold isInk isBlank
    unfold Char.isAlpha Char.isUpper Char.isLower at halpha
    simp only [Bool.or_eq_true, Bool.and_eq_true, decide_eq_true_eq] at halpha
    have hascii : c.val < 128 := by grind
    rw [if_pos hascii, Bool.not_eq_true', Bool.or_eq_false_iff]
    simp only [Bool.and_eq_false_iff, decide_eq_false_iff_not]
    grind
  · rfl
  · rfl

/-- What begins with ink does so without the blanks around it, and is not empty then. -/
theorem trim_spec (h : cs.head?.any isInk = true) : trim cs ≠ [] ∧ trim cs <+: cs := by
  cases cs with
  | nil => cases h
  | cons c cs =>
    have hink : isBlank c = false := by simpa [isInk] using h
    have htrim : trim (c :: cs) = (c :: cs).rdropWhile isBlank := by
      unfold trim
      rw [List.dropWhile_cons_of_neg (by rw [hink]; exact Bool.false_ne_true)]
      rfl
    rw [htrim]
    refine ⟨fun hnil => ?_, List.rdropWhile_prefix isBlank _⟩
    have hblank : isBlank c = true := List.rdropWhile_eq_nil_iff.1 hnil c List.mem_cons_self
    rw [hink] at hblank
    cases hblank

end

/-! ## Detectors -/

namespace Detector

open Text.Regex

theorem functionDeclaration_opens : functionDeclaration.expression.Opens isInk :=
  Opens.boundary (Opens.seq (Opens.alt (Opens.seq (opens_word rfl)) (Opens.seq (opens_word rfl))))

theorem arrowFunction_opens : arrowFunction.expression.Opens isInk :=
  Opens.seq (Opens.alt (Opens.seq (opens_word rfl))
    (Opens.boundary (Opens.seq (opens_one fun _ => isInk_of_isInitial))))

theorem wordStart_opens {s : String} (h : s.toList.head?.any isInk = true) :
    (wordStart s).Opens isInk := Opens.boundary (opens_word h)

theorem wholeWord_opens {s : String} (h : s.toList.head?.any isInk = true) :
    (wholeWord s).Opens isInk := Opens.boundary (Opens.seq (opens_word h))

theorem callOf_opens {s : String} (h : s.toList.head?.any isInk = true) :
    (callOf s).Opens isInk := Opens.seq (opens_word h)

theorem classDeclaration_opens : classDeclaration.expression.Opens isInk :=
  Opens.seq (wordStart_opens rfl)

theorem asyncAwait_opens : asyncAwait.expression.Opens isInk :=
  Opens.alt (Opens.seq (wordStart_opens rfl))
    (Opens.alt (Opens.seq (wordStart_opens rfl)) (Opens.seq (wordStart_opens rfl)))

theorem promiseChain_opens : promiseChain.expression.Opens isInk :=
  Opens.alt (callOf_opens rfl) (Opens.alt (callOf_opens rfl) (Opens.alt (callOf_opens rfl)
    (Opens.alt (Opens.seq (wordStart_opens rfl)) (Opens.seq (wordStart_opens rfl)))))

theorem dependencyInjection_opens : dependencyInjection.expression.Opens isInk :=
  Opens.alt (Opens.seq (opens_word rfl)) (Opens.seq (wordStart_opens rfl))

theorem singleton_opens : singleton.expression.Opens isInk :=
  Opens.alt (callOf_opens rfl) (Opens.alt (Opens.seq (wordStart_opens rfl))
    (Opens.alt (Opens.seq (wordStart_opens rfl)) (Opens.seq (wordStart_opens rfl))))

theorem observable_opens : observable.expression.Opens isInk :=
  Opens.alt (wholeWord_opens rfl) (Opens.alt (callOf_opens rfl) (Opens.alt (callOf_opens rfl)
    (Opens.alt (Opens.seq (wordStart_opens rfl)) (wholeWord_opens rfl))))

/-- No detector matches nothing, and none begins with a blank. -/
theorem opens_of_mem_all : ∀ d ∈ all, d.expression.Opens isInk := by
  refine List.forall_mem_cons.2 ⟨functionDeclaration_opens, ?_⟩
  refine List.forall_mem_cons.2 ⟨arrowFunction_opens, ?_⟩
  refine List.forall_mem_cons.2 ⟨classDeclaration_opens, ?_⟩
  refine List.forall_mem_cons.2 ⟨asyncAwait_opens, ?_⟩
  refine List.forall_mem_cons.2 ⟨promiseChain_opens, ?_⟩
  refine List.forall_mem_cons.2 ⟨dependencyInjection_opens, ?_⟩
  refine List.forall_mem_cons.2 ⟨singleton_opens, ?_⟩
  exact List.forall_mem_singleton.2 observable_opens

end Detector

/-! ## Matches -/

section

variable {d : Detector} {blanks text : List Char}

theorem areLocated_matches (hd : d ∈ Detector.all) (text : List Char) :
    AreLocated text (d.matches text) := by
  have hsearch := Regex.search_findFrom d.expression none 0 text
  have hlocated := hsearch.located
  have hhead := hsearch.head (Detector.opens_of_mem_all d hd)
  refine
    { nonempty := List.forall_mem_map.2 fun m hm => (trim_spec (hhead m hm)).1
      found := List.forall_mem_map.2 fun m hm => ?_
      line := List.forall_mem_map.2 fun m _ => Nat.add_comm _ 1
      increasing := List.pairwise_map.2 (hsearch.pairwise.imp_of_mem fun {m m'} hm _ hapart => ?_)
      apart := List.pairwise_map.2 (hsearch.pairwise.imp_of_mem fun {m m'} hm _ hapart => ?_) }
  · obtain ⟨-, -, htext⟩ := hlocated m hm
    exact (trim_spec (hhead m hm)).2.trans htext
  · have hlength := List.length_pos_of_ne_nil (hlocated m hm).2.1
    dsimp only
    omega
  · have hshorter := (trim_spec (hhead m hm)).2.length_le
    dsimp only
    omega

/-- Behind some characters a place is farther down by the lines that they end. -/
theorem lineAt_append (passed text : List Char) (offset : ℕ) :
    lineAt (passed ++ text) (passed.length + offset) = passed.count '\n' + lineAt text offset := by
  unfold lineAt
  rw [List.take_length_add_append, List.count_append, Nat.add_assoc]

theorem matches_append (hd : d ∈ Detector.all) (hblanks : ∀ c ∈ blanks, isBlank c = true)
    (text : List Char) :
    d.matches (blanks ++ text) = (d.matches text).map (·.moved blanks) := by
  have hpassed : ∀ c ∈ blanks, isInk c = false ∧ isWord c = false := fun c hc =>
    ⟨congrArg not (hblanks c hc), isWord_of_isBlank (hblanks c hc)⟩
  unfold Detector.matches
  rw [Regex.findAll_append (Detector.opens_of_mem_all d hd) hpassed, List.map_map, List.map_map]
  refine List.map_congr_left fun m _ => ?_
  dsimp only [Function.comp, Regex.Match.moved, CodeMatch.moved]
  rw [lineAt_append]

theorem matches_of_isBlank (hd : d ∈ Detector.all) (hblanks : ∀ c ∈ blanks, isBlank c = true) :
    d.matches blanks = [] := by
  have hmoved := matches_append hd hblanks []
  rwa [List.append_nil] at hmoved

theorem matching_append (hblanks : ∀ c ∈ blanks, isBlank c = true) (text : List Char) :
    matching (blanks ++ text) = matching text := by
  refine List.filter_congr fun d hd => ?_
  rw [matches_append hd hblanks, List.isEmpty_map]

end

/-! ## Reports -/

section

variable {config : DetectionConfig} (hconfig : config.IsUsable)
include hconfig

theorem codePattern?_reports (es : Entries) (text : List Char) (d : Detector) :
    Except.Gives (fun found => List.Forall₂ (fun d p => IsReport d p (d.matches text))
      ([d].filter fun d => !(d.matches text).isEmpty) found.toList)
      (codePattern? config (.map es) text d) := by
  obtain ⟨factor, hfactor⟩ :=
    densityFactor_returns hconfig (densityOf (d.matches text).length text.length)
  cases hmatches : (d.matches text).isEmpty with
  | true =>
    unfold codePattern?
    dsimp only
    rw [if_pos hmatches, List.filter_cons_of_neg (by rw [hmatches]; exact Bool.false_ne_true)]
    exact Except.gives_ok .nil
  | false =>
    unfold codePattern?
    dsimp only
    rw [hfactor, if_neg (by rw [hmatches]; exact Bool.false_ne_true),
      List.filter_cons_of_pos (by rw [hmatches]; rfl)]
    refine Except.gives_ok (.cons ?_ .nil)
    exact
      { nonempty := fun hnil => by rw [hnil] at hmatches; cases hmatches
        shape := ⟨_, _, rfl⟩
        description := rfl
        frequency := rfl
        instances := rfl }

/-- The patterns in a text are the reports of the detectors that match there. -/
theorem codePatterns_reports (es : Entries) (text : List Char) :
    Except.Gives (List.Forall₂ (fun d p => IsReport d p (d.matches text)) (matching text))
      (codePatterns config (.map es) text) := by
  have hall (ds : List Detector) : Except.Gives
      (fun found => List.Forall₂ (fun d p => IsReport d p (d.matches text))
        (ds.filter fun d => !(d.matches text).isEmpty) (found.filterMap id))
      (ds.mapM (codePattern? config (.map es) text)) := by
    induction ds with
    | nil => exact Except.gives_ok .nil
    | cons d ds ih =>
      rw [List.mapM_cons]
      refine (codePattern?_reports hconfig es text d).bind fun one hone => ?_
      refine ih.bind fun found hfound => Except.gives_ok ?_
      have hsplit : (one :: found).filterMap id = one.toList ++ found.filterMap id := by
        cases one <;> rfl
      rw [hsplit, ← List.singleton_append, List.filter_append]
      exact List.rel_append hone hfound
  unfold codePatterns
  split
  · rename_i hblank
    have hnone : matching text = [] := by
      refine List.filter_eq_nil_iff.2 fun d hd => ?_
      rw [matches_of_isBlank hd (List.all_eq_true.1 hblank)]
      exact Bool.false_ne_true
    rw [hnone]
    exact Except.gives_ok .nil
  · exact (hall Detector.all).bind fun found hfound => Except.gives_ok hfound

/-- **Matches and blanks in front.** The detectors that match in a text report on their matches. These
are not empty, stand at their places and on their lines, follow one another without overlap, and are
as many as is said. With blanks in front of the text, the same detectors report the same matches,
farther on by the number of the blanks and farther down by the lines among them. -/
theorem codePatterns_located (es : Entries) (text : List Char) :
    (∃ found, codePatterns config (.map es) text = .ok found ∧
      List.Forall₂ (fun d p => AreLocated text (d.matches text) ∧ IsReport d p (d.matches text))
        (matching text) found) ∧
    ∀ blanks : List Char, (∀ c ∈ blanks, isBlank c = true) →
      ∃ found, codePatterns config (.map es) (blanks ++ text) = .ok found ∧
        List.Forall₂ (fun d p => IsReport d p ((d.matches text).map (·.moved blanks)))
          (matching text) found := by
  refine ⟨?_, fun blanks hblanks => ?_⟩
  · obtain ⟨found, hfound, hreports⟩ := codePatterns_reports hconfig es text
    refine ⟨found, hfound, ?_⟩
    refine (List.forall₂_and_left _ _).2 ⟨fun d hd => ?_, hreports⟩
    exact areLocated_matches (List.mem_of_mem_filter hd) text
  · obtain ⟨found, hfound, hreports⟩ := codePatterns_reports hconfig es (blanks ++ text)
    refine ⟨found, hfound, ?_⟩
    rw [matching_append hblanks] at hreports
    have hmatches : ∀ d ∈ matching text,
        d.matches (blanks ++ text) = (d.matches text).map (·.moved blanks) := fun d hd =>
      matches_append (List.mem_of_mem_filter hd) hblanks text
    refine ((List.forall₂_and_left _ _).2 ⟨hmatches, hreports⟩).imp fun d p ⟨hmoved, hreport⟩ => ?_
    rwa [hmoved] at hreport

end

/-- With a line feed and a space in front, a match moves to the second line and two places on. -/
theorem codePatterns_located_sample :
    let text := "async () => new Promise(f)".toList
    let opening (line offset : ℕ) : List Item := [.raw (.record
      [("match", .text "async ("), ("line", .count line), ("offset", .count offset)])]
    (∃ found, codePatterns {} (.map []) text = .ok found ∧
      ∃ p ∈ found, p.instances = opening 1 0) ∧
    (∀ c ∈ ['\n', ' '], isBlank c = true) ∧
    ∃ found, codePatterns {} (.map []) ('\n' :: ' ' :: text) = .ok found ∧
      ∃ p ∈ found, p.instances = opening 2 2 := by
  intro text opening
  have hblanks : ∀ c ∈ ['\n', ' '], isBlank c = true :=
    List.forall_mem_cons.2 ⟨rfl, List.forall_mem_singleton.2 rfl⟩
  have hmatches : Detector.asyncAwait.matches text = [⟨"async (".toList, 1, 0⟩] := by decide +kernel
  have hmem : Detector.asyncAwait ∈ matching text := by
    refine List.mem_filter.2 ⟨?_, ?_⟩
    · repeat constructor
    · rw [hmatches]
      rfl
  obtain ⟨⟨found, hfound, hreports⟩, hmoved⟩ :=
    codePatterns_located DetectionConfig.isUsable_default [] text
  obtain ⟨moved, hmoved, hreports'⟩ := hmoved ['\n', ' '] hblanks
  obtain ⟨p, hp, -, hreport⟩ := Except.exists_of_forall₂ hreports.flip hmem
  obtain ⟨p', hp', hreport'⟩ := Except.exists_of_forall₂ hreports'.flip hmem
  rw [hmatches] at hreport hreport'
  exact ⟨⟨found, hfound, p, hp, hreport.instances⟩, hblanks, moved, hmoved, p', hp',
    hreport'.instances⟩

end KnowledgeGraph
