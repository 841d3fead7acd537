import KnowledgeGraph.Proofs.Text.Regex
import KnowledgeGraph.Text.Name

/-!
# Identifiers

Underscores around an identifier change its style only if there are some before it and the style is
that of a class, which is then told from the first letter no more (`namingStyle_padded`).

A token is a run of small letters with at most one capital before it, a run of capitals up to one that
begins another token, or a run of digits, each as long as it can be (`IsToken`). A text has one division
into tokens and characters that belong to none (`IsTokens.unique`), and the search for tokens finds it
(`isTokens_nameTokens`). So no letter of ASCII and no digit is lost (`nameTokens_exact`), and
underscores around an identifier have no effect on its tokens (`nameTokens_padded`).
-/

namespace KnowledgeGraph.Text

variable {c : Char} {cs ds token token' rest rest' more : List Char} {ts ts' : List (List Char)}

/-! ## Styles -/

/-- An identifier with underscores before and after it. -/
def padded (m n : ℕ) (cs : List Char) : List Char :=
  List.replicate m '_' ++ cs ++ List.replicate n '_'

theorem stripUnderscores_padded (m n : ℕ) (cs : List Char) :
    stripUnderscores (padded m n cs) = stripUnderscores cs := by
  have hall (k : ℕ) : (List.replicate k '_').dropWhile (· == '_') = [] := by simp
  unfold stripUnderscores padded
  rw [List.append_assoc, List.dropWhile_append, hall, List.dropWhile_append, hall]
  cases cs.dropWhile (· == '_') with
  | nil => rfl
  | cons c cs =>
    rw [List.isEmpty_nil, if_pos rfl, List.isEmpty_cons, if_neg Bool.false_ne_true,
      List.reverse_append, List.reverse_replicate, List.dropWhile_append, hall]
    rfl

theorem hasHump_underscore (cs : List Char) : hasHump ('_' :: cs) = hasHump cs := by
  cases cs with
  | nil => rfl
  | cons d cs => exact Bool.false_or _

theorem hasHump_append_underscores (n : ℕ) (cs : List Char) :
    hasHump (cs ++ List.replicate n '_') = hasHump cs := by
  match cs with
  | [] =>
    induction n with
    | zero => rfl
    | succ n ih => exact (hasHump_underscore _).trans ih
  | [c] =>
    cases n with
    | zero => rfl
    | succ n =>
      have hlarge : isLarge '_' = false := rfl
      show ((isSmall c && isLarge '_') || hasHump (List.replicate (n + 1) '_')) = false
      rw [hlarge, Bool.and_false, Bool.false_or]
      exact hasHump_append_underscores (n + 1) []
  | c :: d :: rest =>
    show ((isSmall c && isLarge d) || hasHump ((d :: rest) ++ List.replicate n '_')) = _
    rw [hasHump_append_underscores n (d :: rest)]
    rfl

theorem hasHump_padded (m n : ℕ) (cs : List Char) : hasHump (padded m n cs) = hasHump cs := by
  unfold padded
  rw [List.append_assoc]
  induction m with
  | zero => exact hasHump_append_underscores n cs
  | succ m ih => exact (hasHump_underscore _).trans ih

theorem head?_padded (m n : ℕ) (hcs : cs ≠ []) :
    (padded m n cs).head?.any isCapital = (m == 0 && cs.head?.any isCapital) := by
  obtain ⟨c, cs, rfl⟩ := List.exists_cons_of_ne_nil hcs
  cases m with
  | zero => rfl
  | succ m => exact (show isCapital '_' = false by decide)

/-- **Underscores.** An identifier keeps its style within underscores, save one that begins with a
capital and has a hump: within leading underscores it has the style of one that begins with a small
letter. -/
theorem namingStyle_padded (m n : ℕ) (cs : List Char) : namingStyle (padded m n cs) =
    if 0 < m ∧ namingStyle cs = .pascal then .camel else namingStyle cs := by
  unfold namingStyle
  rw [stripUnderscores_padded, hasHump_padded]
  split
  · rw [if_neg fun h => nomatch h.2]
  · split
    · rename_i hhump
      have hcs : cs ≠ [] := by
        rintro rfl
        cases hhump
      rw [head?_padded m n hcs]
      cases m with
      | zero => rw [if_neg (c := 0 < 0 ∧ _) fun h => Nat.lt_irrefl 0 h.1]; rfl
      | succ m => cases cs.head?.any isCapital <;> rfl
    · rw [if_neg fun h => nomatch h.2]

/-! ## Classes of characters -/

/-- Letters of ASCII and decimal digits of any script. -/
def isTokenChar (c : Char) : Bool := c.isAlpha || isDecimal c

theorem isSmall_of_isLarge (h : isLarge c = true) : isSmall c = false := by
  unfold isLarge Char.isUpper at h
  unfold isSmall Char.isLower
  grind

theorem isDecimal_of_isAlpha (h : c.isAlpha = true) : isDecimal c = false := by
  unfold Char.isAlpha Char.isUpper Char.isLower at h
  have hascii : c.val < 128 := by grind
  have hdigit : c.isDigit = false := by
    unfold Char.isDigit
    grind
  unfold isDecimal digit?
  rw [if_pos hascii, hdigit]
  rfl

theorem isAlpha_of_isSmall (h : isSmall c = true) : c.isAlpha = true := Bool.or_eq_true_iff.2 (.inr h)

theorem isAlpha_of_isLarge (h : isLarge c = true) : c.isAlpha = true := Bool.or_eq_true_iff.2 (.inl h)

theorem isTokenChar_iff : isTokenChar c = true ↔
    isLarge c = true ∨ isSmall c = true ∨ isDecimal c = true := by
  unfold isTokenChar
  rw [Bool.or_eq_true_iff, ← or_assoc]
  exact or_congr_left Bool.or_eq_true_iff

/-! ## Tokens -/

/-- What a token may be, by what follows it: small letters, with a capital before them or not, of
which no more follow; capitals, which neither a small letter follows nor another capital, unless that
one is a small letter's; or digits of which no more follow. -/
inductive IsToken : List Char → List Char → Prop
  | word {capital : Option Char} {small rest : List Char} (hcapital : ∀ c ∈ capital, isLarge c = true)
    (hne : small ≠ []) (hsmall : ∀ c ∈ small, isSmall c = true)
    (hend : rest.head?.any isSmall = false) : IsToken (capital.toList ++ small) rest
  | capitals {large rest : List Char} (hne : large ≠ []) (hlarge : ∀ c ∈ large, isLarge c = true)
    (hend : rest.head?.any isSmall = false)
    (hlongest : ∀ c rest', rest = c :: rest' → isLarge c = true → rest'.head?.any isSmall = true) :
    IsToken large rest
  | digits {digits rest : List Char} (hne : digits ≠ []) (hdigits : ∀ c ∈ digits, isDecimal c = true)
    (hend : rest.head?.any isDecimal = false) : IsToken digits rest

theorem eq_nil_of_all_of_head {p : Char → Bool} (hmore : ∀ c ∈ more, p c = true)
    (hend : (more ++ rest).head?.any p = false) : more = [] := by
  cases more with
  | nil => rfl
  | cons c more => exact absurd (hmore c List.mem_cons_self) (Bool.not_eq_true _ ▸ hend)

namespace IsToken

theorem ne_nil (h : IsToken token rest) : token ≠ [] := by
  cases h with
  | word _ hne => exact mt List.append_eq_nil_iff.1 fun h => hne h.2
  | capitals hne => exact hne
  | digits hne => exact hne

theorem isTokenChar (h : IsToken token rest) : ∀ c ∈ token, isTokenChar c = true := by
  intro c hc
  rw [isTokenChar_iff]
  cases h with
  | word hcapital _ hsmall =>
    obtain hc | hc := List.mem_append.1 hc
    · exact .inl (hcapital c (Option.mem_toList.1 hc))
    · exact .inr (.inl (hsmall c hc))
  | capitals _ hlarge => exact .inl (hlarge c hc)
  | digits _ hdigits => exact .inr (.inr (hdigits c hc))

theorem end_of_isAlpha (h : IsToken token rest) (hc : c ∈ token) (halpha : c.isAlpha = true) :
    rest.head?.any isSmall = false := by
  cases h with
  | word _ _ _ hend => exact hend
  | capitals _ _ hend => exact hend
  | digits _ hdigits => exact absurd (hdigits c hc) (by simp [isDecimal_of_isAlpha halpha])

theorem end_of_isDecimal (h : IsToken token rest) (hc : c ∈ token) (hdecimal : isDecimal c = true) :
    rest.head?.any isDecimal = false := by
  have hletter : ¬ c.isAlpha = true := fun halpha => by simp [isDecimal_of_isAlpha halpha] at hdecimal
  cases h with
  | word hcapital _ hsmall =>
    obtain hc | hc := List.mem_append.1 hc
    · exact absurd (isAlpha_of_isLarge (hcapital c (Option.mem_toList.1 hc))) hletter
    · exact absurd (isAlpha_of_isSmall (hsmall c hc)) hletter
  | capitals _ hlarge => exact absurd (isAlpha_of_isLarge (hlarge c hc)) hletter
  | digits _ _ hend => exact hend

/-- A capital that follows capitals is a small letter's. -/
theorem end_of_isLarge (h : IsToken token (c :: rest)) (hlarge : ∀ d ∈ token, isLarge d = true)
    (hc : isLarge c = true) : rest.head?.any isSmall = true := by
  cases h with
  | word _ hne hsmall =>
    obtain ⟨d, hd⟩ := List.exists_mem_of_ne_nil _ hne
    have hd' : isLarge d = true := hlarge d (List.mem_append_right _ hd)
    exact absurd (hsmall d hd) (by simp [isSmall_of_isLarge hd'])
  | capitals _ _ _ hlongest => exact hlongest c rest rfl hc
  | digits hne hdigits =>
    obtain ⟨d, hd⟩ := List.exists_mem_of_ne_nil _ hne
    exact absurd (hdigits d hd) (by simp [isDecimal_of_isAlpha (isAlpha_of_isLarge (hlarge d hd))])

theorem isSmall_of_append {capital : Option Char} {small : List Char}
    (hsmall : ∀ c ∈ small, isSmall c = true) (hne : token ≠ [])
    (h : token ++ more = capital.toList ++ small) : ∀ c ∈ more, isSmall c = true := by
  obtain ⟨d, token, rfl⟩ := List.exists_cons_of_ne_nil hne
  intro c hc
  cases capital with
  | none =>
    have hmem : c ∈ (d :: token) ++ more := List.mem_append_right _ hc
    rw [h] at hmem
    exact hsmall c hmem
  | some e =>
    have htail : token ++ more = small := (List.cons.inj h).2
    exact hsmall c (htail ▸ List.mem_append_right token hc)

theorem eq_nil_of_append (h : IsToken token (more ++ rest)) (h' : IsToken (token ++ more) rest) :
    more = [] := by
  generalize htoken' : token ++ more = token' at h'
  have hsub : ∀ c ∈ token, c ∈ token' := fun c hc => htoken' ▸ List.mem_append_left more hc
  have hsub' : ∀ c ∈ more, c ∈ token' := fun c hc => htoken' ▸ List.mem_append_right token hc
  obtain ⟨c, hc⟩ := List.exists_mem_of_ne_nil _ h.ne_nil
  cases h' with
  | word hcapital' _ hsmall' =>
    have halpha : c.isAlpha = true := by
      obtain hc' | hc' := List.mem_append.1 (hsub c hc)
      · exact isAlpha_of_isLarge (hcapital' c (Option.mem_toList.1 hc'))
      · exact isAlpha_of_isSmall (hsmall' c hc')
    exact eq_nil_of_all_of_head (isSmall_of_append hsmall' h.ne_nil htoken') (h.end_of_isAlpha hc halpha)
  | capitals _ hlarge' hend' =>
    -- one more capital would be followed by a small letter
    cases more with
    | nil => rfl
    | cons d more =>
      have hsmall := h.end_of_isLarge (fun e he => hlarge' e (hsub e he))
        (hlarge' d (hsub' d List.mem_cons_self))
      cases more with
      | nil => exact absurd hsmall (by simp [hend'])
      | cons e more =>
        have he : isLarge e = true := hlarge' e (hsub' e (List.mem_cons_of_mem d List.mem_cons_self))
        exact absurd hsmall (by simp [isSmall_of_isLarge he])
  | digits _ hdigits' =>
    exact eq_nil_of_all_of_head (fun d hd => hdigits' d (hsub' d hd))
      (h.end_of_isDecimal hc (hdigits' c (hsub c hc)))

theorem unique (h : IsToken token rest) (h' : IsToken token' rest')
    (htext : token ++ rest = token' ++ rest') : token = token' ∧ rest = rest' := by
  obtain ⟨more, rfl, rfl⟩ | ⟨more, rfl, rfl⟩ := List.append_eq_append_iff.1 htext
  · obtain rfl := h.eq_nil_of_append h'
    exact ⟨(List.append_nil token).symm, rfl⟩
  · obtain rfl := h'.eq_nil_of_append h
    exact ⟨List.append_nil token', rfl⟩

theorem head?_append {p : Char → Bool} (hds : ∀ d ∈ ds, p d = false) (rest : List Char) :
    (rest ++ ds).head?.any p = rest.head?.any p := by
  cases rest with
  | cons c rest => rfl
  | nil =>
    cases ds with
    | nil => rfl
    | cons d ds => exact hds d List.mem_cons_self

/-- Characters that belong to no token do not make a token shorter or longer. -/
theorem append (h : IsToken token rest) (hds : ∀ d ∈ ds, Text.isTokenChar d = false) :
    IsToken token (rest ++ ds) := by
  have hclasses : ∀ d ∈ ds, isLarge d = false ∧ isSmall d = false ∧ isDecimal d = false := by
    intro d hd
    have hd' : ¬ Text.isTokenChar d = true := by simp [hds d hd]
    simpa [isTokenChar_iff] using hd'
  have hsmalls : ∀ d ∈ ds, isSmall d = false := fun d hd => (hclasses d hd).2.1
  cases h with
  | word hcapital hne hsmall hend =>
    exact .word hcapital hne hsmall ((head?_append hsmalls rest).trans hend)
  | capitals hne hlarge hend hlongest =>
    refine .capitals hne hlarge ((head?_append hsmalls rest).trans hend) fun c rest' hrest' hc => ?_
    cases rest with
    | nil =>
      have hmem : c ∈ ds := by
        rw [List.nil_append] at hrest'
        exact hrest' ▸ List.mem_cons_self
      exact absurd hc (by simp [(hclasses c hmem).1])
    | cons d rest =>
      obtain ⟨rfl, rfl⟩ := List.cons.inj hrest'
      exact (head?_append hsmalls rest).trans (hlongest _ _ rfl hc)
  | digits hne hdigits hend =>
    exact .digits hne hdigits ((head?_append (fun d hd => (hclasses d hd).2.2) rest).trans hend)

end IsToken

/-! ## Matches -/

theorem isToken_of_rest? {before : Option Char} (h : nameToken.rest? before cs = some rest) :
    ∃ token, cs = token ++ rest ∧ IsToken token rest := by
  unfold nameToken Regex.choice Regex.choice Regex.choice at h
  rw [Regex.rest?_alt, Regex.rest?_alt, Option.or_eq_some_iff, Option.or_eq_some_iff] at h
  obtain hword | ⟨-, hcapitals | ⟨-, hdigits⟩⟩ := h
  · obtain ⟨_, _, rfl, hcapital, hword⟩ := Regex.rest?_seq hword
    obtain ⟨small, rfl, hne, hsmall, hend⟩ := Regex.rest?_atLeastOne hword
    cases hcapital with
    | left hone =>
      cases hone with
      | @one _ _ c _ hc =>
        have hcapital : ∀ d ∈ some c, isLarge d = true := by simpa using hc
        exact ⟨c :: small, rfl, .word hcapital hne hsmall hend⟩
    | right hempty =>
      cases hempty
      have hcapital : ∀ d ∈ none, isLarge d = true := nofun
      exact ⟨small, rfl, .word hcapital hne hsmall hend⟩
  · obtain ⟨large, rfl, hne, hlarge, hend, hlongest⟩ := Regex.rest?_atLeastOne_notAhead hcapitals
    exact ⟨large, rfl, .capitals hne hlarge hend hlongest⟩
  · obtain ⟨digits, rfl, hne, hdigits, hend⟩ := Regex.rest?_atLeastOne hdigits
    exact ⟨digits, rfl, .digits hne hdigits hend⟩

theorem exists_rest?_of_isTokenChar (hc : isTokenChar c = true) (before : Option Char)
    (cs : List Char) : ∃ rest, nameToken.rest? before (c :: cs) = some rest := by
  have hrun {p : Char → Bool} {before : Option Char} {c : Char} {cs : List Char} (hc : p c = true) :
      (Regex.atLeastOne p).Takes before [c] cs := by
    have hnone : (Regex.many p).Takes (Regex.behind before [c]) [] cs := .many nofun
    exact .seq (.one hc) hnone
  obtain hlarge | hsmall | hdecimal := isTokenChar_iff.1 hc
  · by_cases hnext : cs.head?.any isSmall = true
    · cases cs with
      | nil => cases hnext
      | cons d cs => exact Regex.Takes.exists_rest? (.left (.seq (.left (.one hlarge)) (hrun hnext)))
    · have hahead : cs.head?.any isSmall = false := Bool.not_eq_true _ ▸ hnext
      exact Regex.Takes.exists_rest? (.right (.left (.seq (hrun hlarge) (.notAhead hahead))))
  · exact Regex.Takes.exists_rest? (.left (.seq (.right .empty) (hrun hsmall)))
  · exact Regex.Takes.exists_rest? (.right (.right (hrun hdecimal)))

/-! ## Divisions -/

/-- A division of a text into tokens and characters that belong to none. -/
inductive IsTokens : List Char → List (List Char) → Prop
  | done : IsTokens [] []
  | skip {c : Char} {cs : List Char} {ts : List (List Char)} (hc : isTokenChar c = false)
    (h : IsTokens cs ts) : IsTokens (c :: cs) ts
  | token {token rest : List Char} {ts : List (List Char)} (htoken : IsToken token rest)
    (h : IsTokens rest ts) : IsTokens (token ++ rest) (token :: ts)

theorem isTokens_of_search {before : Option Char} {offset : ℕ} {ms : List Regex.Match}
    (h : nameToken.Search before offset cs ms) : IsTokens cs (ms.map (·.text)) := by
  induction h with
  | done => exact .done
  | @pass before offset c cs ms hnothing _ ih =>
    refine .skip (Bool.not_eq_true _ ▸ fun hc => ?_) ih
    obtain ⟨rest, hrest⟩ := exists_rest?_of_isTokenChar hc before cs
    obtain ⟨token, htext, htoken⟩ := isToken_of_rest? hrest
    rw [hnothing rest hrest] at htext
    exact htoken.ne_nil (List.self_eq_append_left.1 htext)
  | hit _ htaken _ ih =>
    obtain ⟨token, htext, htoken⟩ := isToken_of_rest? htaken
    obtain rfl := List.append_cancel_right htext
    exact .token htoken ih

theorem isTokens_nameTokens (cs : List Char) : IsTokens cs (nameTokens cs) :=
  isTokens_of_search (Regex.search_findFrom nameToken none 0 cs)

namespace IsTokens

/-- No letter and no digit is lost, and nothing else is kept. -/
theorem flatten_eq (h : IsTokens cs ts) : ts.flatten = cs.filter isTokenChar := by
  induction h with
  | done => rfl
  | skip hc _ ih => rw [ih, List.filter_cons_of_neg (by simp [hc])]
  | token htoken _ ih =>
    rw [List.flatten_cons, ih, List.filter_append, List.filter_eq_self.2 htoken.isTokenChar]

theorem unique (h : IsTokens cs ts) (h' : IsTokens cs ts') : ts = ts' := by
  induction h generalizing ts' with
  | done =>
    generalize hcs : [] = cs at h'
    cases h' with
    | done => rfl
    | skip => cases hcs
    | token htoken => exact absurd (List.append_eq_nil_iff.1 hcs.symm).1 htoken.ne_nil
  | @skip c cs ts hc _ ih =>
    generalize hcs : c :: cs = text at h'
    cases h' with
    | done => cases hcs
    | skip _ h' =>
      cases hcs
      exact ih h'
    | token htoken =>
      obtain ⟨d, token, rfl⟩ := List.exists_cons_of_ne_nil htoken.ne_nil
      cases hcs
      exact absurd (htoken.isTokenChar c List.mem_cons_self) (by simp [hc])
  | @token token rest ts htoken _ ih =>
    generalize hcs : token ++ rest = text at h'
    cases h' with
    | done => exact absurd (List.append_eq_nil_iff.1 hcs).1 htoken.ne_nil
    | @skip d _ _ hd =>
      obtain ⟨_, token, rfl⟩ := List.exists_cons_of_ne_nil htoken.ne_nil
      cases hcs
      exact absurd (htoken.isTokenChar d List.mem_cons_self) (by simp [hd])
    | token htoken' h' =>
      obtain ⟨rfl, rfl⟩ := htoken.unique htoken' hcs
      rw [ih h']

/-- Characters that belong to no token stand behind a text without a change to its tokens. -/
theorem append (h : IsTokens cs ts) (hds : ∀ d ∈ ds, isTokenChar d = false) :
    IsTokens (cs ++ ds) ts := by
  induction h with
  | done =>
    induction ds with
    | nil => exact .done
    | cons d ds ih =>
      rw [List.forall_mem_cons] at hds
      exact .skip hds.1 (ih hds.2)
  | skip hc _ ih => exact .skip hc ih
  | @token token rest ts htoken _ ih =>
    rw [List.append_assoc]
    exact .token (htoken.append hds) ih

/-- Characters that belong to no token stand in front of a text without a change to its tokens. -/
theorem prepend (h : IsTokens cs ts) (hds : ∀ d ∈ ds, isTokenChar d = false) :
    IsTokens (ds ++ cs) ts := by
  induction ds with
  | nil => exact h
  | cons d ds ih =>
    rw [List.forall_mem_cons] at hds
    exact .skip hds.1 (ih hds.2)

end IsTokens

/-- Underscores around an identifier have no effect on its tokens. -/
theorem nameTokens_padded (m n : ℕ) (cs : List Char) : nameTokens (padded m n cs) = nameTokens cs := by
  have hunderscores (k : ℕ) : ∀ d ∈ List.replicate k '_', isTokenChar d = false := fun d hd =>
    List.eq_of_mem_replicate hd ▸ rfl
  exact (isTokens_nameTokens _).unique
    (((isTokens_nameTokens cs).prepend (hunderscores m)).append (hunderscores n))

/-- **Tokens.** Each token that is found stands at its place in the identifier and is one of the three
kinds, as long as it can be there; a token ends before the next one begins; and all of them together
are the letters of ASCII and the decimal digits of the identifier, in order. -/
theorem nameTokens_exact (cs : List Char) :
    (∀ m ∈ nameToken.findAll cs, ∃ passed rest, cs = passed ++ m.text ++ rest ∧
      m.offset = passed.length ∧ m.text ≠ [] ∧ IsToken m.text rest) ∧
    (nameToken.findAll cs).Pairwise (fun m m' => m.offset + m.text.length ≤ m'.offset) ∧
    (nameTokens cs).flatten = cs.filter isTokenChar := by
  have hsearch := Regex.search_findFrom nameToken none 0 cs
  refine ⟨fun m hm => ?_, hsearch.pairwise, (isTokens_nameTokens cs).flatten_eq⟩
  obtain ⟨passed, rest, htext, hoffset, hne, hrest⟩ := hsearch.placed m hm
  obtain ⟨token, htoken, hkind⟩ := isToken_of_rest? hrest
  obtain rfl := List.append_cancel_right htoken
  exact ⟨passed, rest, htext, hoffset.trans (Nat.zero_add _), hne, hkind⟩

/-- Capitals before another token, and a digit between. -/
example : nameTokens "HTTPServer_A1b".toList =
    ["HTTP".toList, "Server".toList, "A".toList, "1".toList, "b".toList] := by decide

end KnowledgeGraph.Text
