import KnowledgeGraph.Proofs.Kinds
import KnowledgeGraph.Proofs.Number.Whole
import KnowledgeGraph.Proofs.Pattern.Cluster
import KnowledgeGraph.Proofs.Pattern.Code
import KnowledgeGraph.Proofs.Pattern.Recognition
import KnowledgeGraph.Proofs.Reasoning.Maintainability

/-!
# The analysis of code accounts for every atom

The analysis selects from the same atoms several times: by type, by complexity, by truth value and by
the style of the name. It comes out well on all atoms with texts as names whose complexities are in
the range of floats, and its metrics, suggestions and conclusions agree with one another
(`assess_accounts`): every atom that describes code is counted once, and what is suggested is what the
metrics report. The styles of names are counted in a tally, of which the share of the most common
style is one exactly if no two styles occur (`share_spec`, `consistency_spec`).
-/

namespace KnowledgeGraph

namespace Quality

open Text (NamingStyle)

/-! ## What there is to tell -/

def described (atoms : List Atom) : List Atom := atoms.filter (·.hasTypeIn codeTypes)

def numberOf (t : AtomType) (atoms : List Atom) : ℕ := (atoms.filter (·.hasType t)).length

/-- The number that the metadata of an atom give as its complexity; truth values are no numbers. -/
def complexityOf (a : Atom) : Option Quantity :=
  match Entries.get? a.metadata "complexity" with
  | some (.bool _) => none
  | some (.scalar s) => s.quantity?
  | _ => none

/-- Whether an atom is a function with a complexity above a threshold. -/
def exceeds (threshold : Quantity) (a : Atom) : Bool :=
  a.hasType .functionNode && (complexityOf a).any threshold.less

/-- The styles of the names of functions and variables, in order and without flat ones. -/
def styles (code : List Atom) : List NamingStyle :=
  ((code.filter fun a => a.isNamed && a.hasTypeIn [.functionNode, .variableNode]).map fun a =>
    Text.namingStyle a.nameChars).filter (· ≠ .flat)

/-- A function or a variable with a name in a style that is not flat. -/
def IsNamedIn (s : NamingStyle) (a : Atom) : Prop :=
  a.isNamed = true ∧ (a.hasType .functionNode = true ∨ a.hasType .variableNode = true) ∧
    Text.namingStyle a.nameChars = s ∧ s ≠ .flat

/-- Functions and variables are named in different styles. -/
def Mixed (code : List Atom) : Prop :=
  ∃ a ∈ code, ∃ b ∈ code, ∃ s t, IsNamedIn s a ∧ IsNamedIn t b ∧ s ≠ t

/-- The share of a style, if there is one, and one if there is none. -/
def share (ss : List NamingStyle) : Option NamingStyle → ℚ
  | none => 1
  | some s => ss.count s / ss.length

/-- The score of maintainability without rounding. -/
def exactMaintainability (threshold : Quantity) (code : List Atom) (best? : Option NamingStyle) : ℚ :=
  exactScore ((code.filter (exceeds threshold)).length / numberOf .functionNode code)
    (share (styles code) best?)

def metric (r : Answer) (name : String) : Value :=
  Entries.field ((Entries.field r.metadata "qualityMetrics").entries?.getD []) name

def ofKind (kind : String) (ss : List Suggestion) : List Suggestion := ss.filter (·.kind == kind)

/-- One suggestion about something if a condition holds, and none otherwise. -/
def OnceIf (condition : Prop) (about : Suggestion → Prop) (ss : List Suggestion) : Prop :=
  condition ∧ (∃ s, ss = [s] ∧ about s) ∨ ¬ condition ∧ ss = []

/-- The link that states a suggestion. -/
structure States (s : Suggestion) (a : Atom) : Prop where
  type : a.type = .text AtomType.evaluationLink.label
  name : a.name = .text s.kind
  outgoing : a.outgoing = [.known (.make .predicateNode (.text s.kind) none [] []),
    .known (.make .conceptNode s.target none [] [])]
  message : Entries.field a.metadata "message" = .text s.message

/-- What an analysis tells of atoms that describe code, by the suggestions it makes and the style that
it takes for the most common one. -/
structure IsAnalysis (threshold : Quantity) (code : List Atom) (ss : List Suggestion)
    (best? : Option NamingStyle) (r : Answer) : Prop where
  functions : metric r "functionCount" = .count (numberOf .functionNode code)
  classes : metric r "classCount" = .count (numberOf .classNode code)
  variableNodes : metric r "variableCount" = .count (numberOf .variableNode code)
  total : numberOf .functionNode code + numberOf .classNode code + numberOf .variableNode code +
    numberOf .fileNode code = code.length
  high : metric r "highComplexityFunctions" = .list ((code.filter (exceeds threshold)).map (·.name))
  style : metric r "namingStyle" = (best?.map fun s => Value.text s.label).getD .null
  mostFrequent : IsMostFrequent (styles code) best?
  suggestions : Entries.field r.metadata "suggestions" = .list (ss.map Suggestion.toValue)
  kinds : ∀ s ∈ ss, s.kind ∈ ["reduce-complexity", "add-truth-values", "consistent-naming"]
  reduce : List.Forall₂ (fun a s => s.target = a.name ∧ s.atoms = none)
    (code.filter (exceeds threshold)) (ofKind "reduce-complexity" ss)
  truths : OnceIf (∃ a ∈ code, a.truth.isEmpty = true)
    (fun s => s.atoms = some ((code.filter (·.truth.isEmpty)).map (·.name)))
    (ofKind "add-truth-values" ss)
  naming : code.length ≤ 2 ^ 50 →
    OnceIf (Mixed code) (fun s => s.atoms = none) (ofKind "consistent-naming" ss)
  conclusion : ∃ quality links, r.conclusion = quality :: links ∧
    quality.type = .text AtomType.conceptNode.label ∧ quality.name = .text "code-quality" ∧
    List.Forall₂ States ss links
  score : ∃ m, metric r "maintainability" = .float m ∧ InUnit m ∧ (code.length ≤ 2 ^ 50 →
    ((m == 1) = true ↔
      (∀ a ∈ code, exceeds threshold a = false) ∧ ofKind "consistent-naming" ss = []) ∧
    |value m - exactMaintainability threshold code best?| ≤ 1 / 2 ^ 50)
  exactShare : share (styles code) best? < 1 ↔ Mixed code
  exactScore : 0 ≤ exactMaintainability threshold code best? ∧
    exactMaintainability threshold code best? ≤ 1 ∧
    (exactMaintainability threshold code best? = 1 ↔
      (∀ a ∈ code, exceeds threshold a = false) ∧ ¬ Mixed code)

/-! ## Types -/

theorem hasType_eq {a : Atom} {t : AtomType} (h : a.type = .text t.label) (t' : AtomType) :
    a.hasType t' = decide (t.label = t'.label) := by
  unfold Atom.hasType
  rw [h, Bool.eq_iff_iff, Value.isText_iff, decide_eq_true_iff, Value.scalar.injEq,
    Scalar.text.injEq]

theorem exists_type_of_mem_described {atoms : List Atom} {a : Atom} (h : a ∈ described atoms) :
    ∃ t ∈ codeTypes, a.type = .text t.label := by
  obtain ⟨t, ht, htype⟩ := List.any_eq_true.1 (List.mem_filter.1 h).2
  exact ⟨t, ht, Value.isText_iff.1 htype⟩

theorem numberOf_cons (t : AtomType) (a : Atom) (atoms : List Atom) :
    numberOf t (a :: atoms) = (if a.hasType t then 1 else 0) + numberOf t atoms := by
  unfold numberOf
  rw [List.filter_cons]
  split
  · rw [List.length_cons, Nat.add_comm]
  · rw [Nat.zero_add]

theorem numberOf_add {code : List Atom}
    (htypes : ∀ a ∈ code, ∃ t ∈ codeTypes, a.type = .text t.label) :
    numberOf .functionNode code + numberOf .classNode code + numberOf .variableNode code +
      numberOf .fileNode code = code.length := by
  have hone : ∀ t ∈ codeTypes,
      (codeTypes.map fun t' => if t.label = t'.label then 1 else 0).sum = 1 := by
    decide
  induction code with
  | nil => rfl
  | cons a code ih =>
    rw [List.forall_mem_cons] at htypes
    obtain ⟨⟨t, ht, htype⟩, hrest⟩ := htypes
    have hone := hone t ht
    have ih := ih hrest
    simp only [codeTypes, List.map_cons, List.map_nil, List.sum_cons, List.sum_nil] at hone
    simp only [numberOf_cons, hasType_eq htype, decide_eq_true_eq, List.length_cons]
    omega

/-! ## Complexity -/

/-- The threshold of a configuration. It is not below zero, where functions without a complexity would
exceed it with nothing to report, and it is below the whole numbers that floats cannot tell apart. -/
structure IsThreshold (config : ReasoningConfig) (threshold : Quantity) : Prop where
  quantity : config.complexityThreshold.quantity = .ok threshold
  finite : threshold.IsFinite
  nonneg : 0 ≤ threshold.value
  lt : threshold.value < 2 ^ 53

theorem isThreshold_default : IsThreshold {} (.float 10) := by
  obtain ⟨hfinite, hvalue⟩ := value_toFloat (n := 10) (by norm_num)
  refine ⟨rfl, hfinite, ?_, ?_⟩
  · show 0 ≤ value (10 : ℕ).toFloat
    rw [hvalue]
    norm_num
  · show value (10 : ℕ).toFloat < _
    rw [hvalue]
    norm_num

/-- A whole number is above a threshold if the float nearest to it is. -/
theorem lt_rounded_intCast_iff {t : ℚ} (hlow : 0 ≤ t) (hhigh : t < 2 ^ 53) (n : ℤ) :
    t < rounded n ↔ t < n := by
  by_cases hshort : |n| < 2 ^ 53
  · rw [rounded_intCast hshort]
  obtain hlarge | hsmall : (2 : ℤ) ^ 53 ≤ n ∨ n ≤ -2 ^ 53 := by
    rw [abs_lt] at hshort
    omega
  · have hlarge' : (2 : ℚ) ^ 53 ≤ n := by exact_mod_cast hlarge
    have hself : rounded (2 ^ 53) = 2 ^ 53 := by
      have := rounded_eq_self (n := 1) (e := 53) (by norm_num) (by norm_num)
      simpa using this
    have hround : 2 ^ 53 ≤ rounded n := hself ▸ rounded_mono hlarge'
    exact iff_of_true (hhigh.trans_le hround) (hhigh.trans_le hlarge')
  · have hsmall' : (n : ℚ) ≤ 0 := by exact_mod_cast hsmall.trans (by norm_num)
    have hround : rounded n ≤ 0 := rounded_zero ▸ rounded_mono hsmall'
    exact iff_of_false (hround.trans hlow).not_gt (hsmall'.trans hlow).not_gt

/-- Functions with their complexities, of which those above the threshold are high. -/
def AreMeasured (threshold : Quantity) (functions : List Atom) (cs : List (Atom × Option Float)) :
    Prop :=
  cs.map (·.1) = functions ∧ ∀ c ∈ cs, isHigh threshold c.2 = (complexityOf c.1).any threshold.less

section

variable {config : ReasoningConfig} {threshold : Quantity} (hthreshold : IsThreshold config threshold)
include hthreshold

theorem isHigh_none : isHigh threshold none = false := by
  have hzero : (Quantity.float 0).IsFinite := inUnit_zero.isFinite
  show threshold.less (.float 0) = false
  rw [← Bool.not_eq_true, Quantity.less_iff hthreshold.finite hzero]
  show ¬ _ < value 0
  rw [value_zero]
  exact not_lt.2 hthreshold.nonneg

theorem isHigh_int {n : ℤ} {x : Float} (hx : floatOfInt n = .ok x) :
    isHigh threshold (some x) = threshold.less (.int n) := by
  obtain ⟨hfinite, hvalue⟩ := floatOfInt_nearest hx
  have hfloat : (Quantity.float x).IsFinite := hfinite
  have hint : (Quantity.int n).IsFinite := trivial
  show threshold.less (.float x) = threshold.less (.int n)
  rw [Bool.eq_iff_iff, Quantity.less_iff hthreshold.finite hfloat,
    Quantity.less_iff hthreshold.finite hint]
  show threshold.value < value x ↔ threshold.value < n
  rw [hvalue]
  exact lt_rounded_intCast_iff hthreshold.nonneg hthreshold.lt n

/-- A complexity is high where the number in the metadata is above the threshold. -/
theorem complexity?_gives {a : Atom}
    (hrange : ∀ n, complexityOf a = some (.int n) → Except.Returns (floatOfInt n)) :
    Except.Gives (fun c => isHigh threshold c = (complexityOf a).any threshold.less)
      (complexity? a) := by
  have hnone := isHigh_none hthreshold
  unfold complexityOf at hrange ⊢
  unfold complexity?
  generalize Entries.get? a.metadata "complexity" = found at hrange ⊢
  cases found with
  | none => exact Except.gives_ok hnone
  | some v =>
    cases v with
    | list _ | map _ => exact Except.gives_ok hnone
    | scalar s =>
      cases s with
      | null | bool _ | text _ => exact Except.gives_ok hnone
      | float x | nan _ => exact Except.gives_ok rfl
      | int n =>
        obtain ⟨x, hx⟩ := hrange n rfl
        dsimp only
        rw [hx, Except.ok_bind]
        exact Except.gives_ok (isHigh_int hthreshold hx)

theorem mapM_withComplexity_gives {functions : List Atom} (hrange : ∀ a ∈ functions, ∀ n,
    complexityOf a = some (.int n) → Except.Returns (floatOfInt n)) :
    Except.Gives (AreMeasured threshold functions) (functions.mapM withComplexity) := by
  induction functions with
  | nil => exact Except.gives_ok ⟨rfl, List.forall_mem_nil _⟩
  | cons a functions ih =>
    rw [List.forall_mem_cons] at hrange
    rw [List.mapM_cons]
    unfold withComplexity at ih ⊢
    rw [bind_assoc]
    refine (complexity?_gives hthreshold hrange.1).bind fun c hc => ?_
    rw [Except.pure_eq, Except.ok_bind]
    refine (ih hrange.2).bind fun cs hcs => Except.gives_ok ⟨?_, ?_⟩
    · exact congrArg (a :: ·) hcs.1
    · exact List.forall_mem_cons.2 ⟨hc, hcs.2⟩

/-- What is reported are the functions with a complexity above the threshold. -/
theorem mapM_reported?_gives {functions : List Atom} {cs : List (Atom × Option Float)}
    (hcs : AreMeasured threshold functions cs) :
    Except.Gives (fun found => (found.filterMap id).map (·.1) =
      functions.filter fun a => (complexityOf a).any threshold.less)
      (cs.mapM (reported? config.complexityThreshold)) := by
  have hone : ∀ c ∈ cs, if isHigh threshold c.2 = true then
      ∃ y, reported? config.complexityThreshold c = .ok (some y) ∧ c.1 = y.1
      else reported? config.complexityThreshold c = .ok none := by
    intro c _
    unfold reported?
    rw [hthreshold.quantity, Except.ok_bind]
    split
    · rename_i hhigh
      obtain ⟨a, _ | x⟩ := c
      · rw [isHigh_none hthreshold] at hhigh
        cases hhigh
      · exact ⟨(a, x), rfl, rfl⟩
    · rfl
  obtain ⟨found, hfound, hnames⟩ := Except.exists_mapM_filterMap hone
  refine ⟨found, hfound, ?_⟩
  have hsame : (cs.filter fun c => isHigh threshold c.2 = true).map (·.1) =
      (found.filterMap id).map (·.1) := by
    rw [← List.forall₂_eq_eq_eq, List.forall₂_map_left_iff, List.forall₂_map_right_iff]
    exact hnames
  show (found.filterMap id).map (·.1) = _
  rw [← hsame, ← hcs.1, List.filter_map]
  refine congrArg _ (List.filter_congr fun c hc => ?_)
  rw [Bool.decide_eq_true, hcs.2 c hc]
  rfl

end

/-! ## Names -/

/-- A code atom that is neither a class nor a file is a function or a variable. -/
theorem not_hasTypeIn_eq {a : Atom} (htype : ∃ t ∈ codeTypes, a.type = .text t.label) :
    (!a.hasTypeIn [.classNode, .fileNode]) = a.hasTypeIn [.functionNode, .variableNode] := by
  have hlabels : ∀ t ∈ codeTypes,
      (!([AtomType.classNode, .fileNode].any fun t' => decide (t.label = t'.label))) =
        [AtomType.functionNode, .variableNode].any fun t' => decide (t.label = t'.label) := by
    decide
  obtain ⟨t, ht, htype⟩ := htype
  have hany (ts : List AtomType) : a.hasTypeIn ts = ts.any fun t' => decide (t.label = t'.label) :=
    congrArg ts.any (funext (hasType_eq htype))
  rw [hany, hany]
  exact hlabels t ht

theorem stylesOf_named {atoms : List Atom} (hnames : ∀ a ∈ atoms, a.name.IsTextOrNull) :
    stylesOf atoms = .ok ((atoms.filter fun a =>
      a.isNamed && !a.hasTypeIn [.classNode, .fileNode]).map fun a => Text.namingStyle a.nameChars) := by
  refine Except.mapM_of_forall fun a ha => ?_
  obtain ⟨hmem, hnamed⟩ := List.mem_filter.1 ha
  obtain ⟨s, hs⟩ := (hnames a hmem).exists_text
    ((Bool.not_eq_true' _).mp (Bool.and_eq_true_iff.1 hnamed).1)
  unfold Atom.nameChars
  rw [hs]
  rfl

section

variable {code : List Atom} (htypes : ∀ a ∈ code, ∃ t ∈ codeTypes, a.type = .text t.label)

include htypes in
theorem stylesOf_eq (hnames : ∀ a ∈ code, a.name.IsTextOrNull) : stylesOf code =
    .ok ((code.filter fun a => a.isNamed && a.hasTypeIn [.functionNode, .variableNode]).map fun a =>
      Text.namingStyle a.nameChars) := by
  have hfilter : (code.filter fun a => a.isNamed && !a.hasTypeIn [.classNode, .fileNode]) =
      code.filter fun a => a.isNamed && a.hasTypeIn [.functionNode, .variableNode] :=
    List.filter_congr fun a ha => congrArg _ (not_hasTypeIn_eq (htypes a ha))
  rw [stylesOf_named hnames, hfilter]

theorem mem_styles {s : NamingStyle} : s ∈ styles code ↔ ∃ a ∈ code, IsNamedIn s a := by
  unfold styles IsNamedIn Atom.hasTypeIn
  rw [List.mem_filter, List.mem_map]
  simp only [List.mem_filter, Bool.and_eq_true, List.any_cons, List.any_nil, Bool.or_false,
    Bool.or_eq_true, decide_eq_true_eq]
  constructor
  · rintro ⟨⟨a, ⟨ha, hnamed, htype⟩, rfl⟩, hflat⟩
    exact ⟨a, ha, hnamed, htype, rfl, hflat⟩
  · rintro ⟨a, ha, hnamed, htype, rfl, hflat⟩
    exact ⟨⟨a, ⟨ha, hnamed, htype⟩, rfl⟩, hflat⟩

theorem not_mixed_iff : ¬ Mixed code ↔ ∀ s ∈ styles code, ∀ t ∈ styles code, s = t := by
  constructor
  · intro h s hs t ht
    obtain ⟨a, ha, hsa⟩ := mem_styles.1 hs
    obtain ⟨b, hb, htb⟩ := mem_styles.1 ht
    by_contra hne
    exact h ⟨a, ha, b, hb, s, t, hsa, htb, hne⟩
  · rintro h ⟨a, ha, b, hb, s, t, hsa, htb, hne⟩
    exact hne (h s (mem_styles.2 ⟨a, ha, hsa⟩) t (mem_styles.2 ⟨b, hb, htb⟩))

end

/-! ## The most common style -/

theorem sharp_style (s : NamingStyle) : Key.Sharp s := fun _ => beq_iff_eq

theorem styleCounts_eq (ss : List NamingStyle) :
    styleCounts ss = Table.tally (ss.filter (· ≠ .flat)) :=
  Table.erase_tally (sharp_style _) fun s _ => sharp_style s

section

variable {ss : List NamingStyle} {best? : Option NamingStyle}

/-- The share of the most common style is one if there is no other one. -/
theorem share_spec (h : IsMostFrequent ss best?) : 0 ≤ share ss best? ∧ share ss best? ≤ 1 ∧
    (share ss best? = 1 ↔ ∀ s ∈ ss, ∀ t ∈ ss, s = t) := by
  cases best? with
  | none =>
    rw [show ss = [] from h]
    exact ⟨zero_le_one, le_rfl, iff_of_true rfl (List.forall_mem_nil _)⟩
  | some best =>
    have hmem : best ∈ ss := List.mem_eraseDups.1 (IsFirstBest.mem h)
    have hpos : (0 : ℚ) < ss.length := by exact_mod_cast List.length_pos_of_mem hmem
    have hle : (ss.count best : ℚ) ≤ ss.length := by exact_mod_cast List.count_le_length
    unfold share
    refine ⟨by positivity, (div_le_one hpos).2 hle, ?_⟩
    rw [div_eq_one_iff_eq hpos.ne', Nat.cast_inj, List.count_eq_length]
    constructor
    · exact fun hall s hs t ht => (hall s hs).symm.trans (hall t ht)
    · exact fun hall s hs => hall best hmem s hs

theorem isPart_share (hlength : ss.length ≤ 2 ^ 50) : IsPart (share ss best?) := by
  cases best? with
  | none => exact isPart_one
  | some best => exact isPart_div List.count_le_length hlength

theorem isNearest_one : IsNearest 1 1 where
  finite := inUnit_one.isFinite
  value_eq := value_one.trans rounded_one.symm

/-- The share is found with the most common style, up to rounding. -/
theorem consistency_spec (ss : List NamingStyle) :
    IsMostFrequent ss (consistency (Table.tally ss)).2 ∧ (ss.length ≤ 2 ^ 50 →
      IsNearest (consistency (Table.tally ss)).1 (share ss (consistency (Table.tally ss)).2)) := by
  have hsharp : ∀ s ∈ ss, Key.Sharp s := fun s _ => sharp_style s
  have hmost := Table.isMostFrequent_mostCounted hsharp
  unfold consistency
  cases hfound : Table.mostCounted? (Table.tally ss) with
  | none =>
    rw [hfound] at hmost
    exact ⟨hmost, fun _ => isNearest_one⟩
  | some e =>
    obtain ⟨best, count⟩ := e
    rw [hfound] at hmost
    refine ⟨hmost, fun hlength => ?_⟩
    have hcount : count = ss.count best :=
      Table.eq_count_of_mem_tally hsharp _ (Table.isFirstBest_of_mostCounted hfound).mem
    have hmem : best ∈ ss := List.mem_eraseDups.1 (IsFirstBest.mem hmost)
    dsimp only
    rw [Table.total_tally hsharp, hcount]
    exact isNearest_div List.count_le_length (List.length_pos_of_mem hmem) hlength

end

theorem IsNearest.lt_one_iff {x : Float} {q : ℚ} (hx : IsNearest x q) (hq : IsPart q) :
    x < 1 ↔ q ≠ 1 := by
  rw [lt_iff_value hx.finite inUnit_one.isFinite, hx.value_eq, value_one]
  constructor
  · rintro hlt rfl
    exact hlt.ne rounded_one
  · intro hne
    exact (hq.rounded_gaps.2 hne).trans_lt (by norm_num)

/-! ## Patterns in the text -/

/-- The patterns in the text of a context are found, and have labels. -/
theorem textPatterns_gives {r : Recognizer} {q : Question} (hconfig : r.config.IsUsable)
    (hr : r.WeighsUsers) (huser : (q.contextField "userId").IsTextOrNull)
    (huser' : (q.contextField "user_id").IsTextOrNull) :
    Except.Gives (fun ps => ∀ p ∈ ps, Except.Returns p.label) (textPatterns r q) := by
  unfold textPatterns
  split
  · rename_i s _
    split
    · exact Except.gives_ok (List.forall_mem_nil _)
    · have hcontext : (Value.map q.context).orElse (.map []) = .map q.context := by
        cases q.context <;> rfl
      have hrequest : RecognitionRequest.IsWellTyped
          { subject := .value (.text s), context := .map q.context } :=
        { RecognitionRequest.isWellTyped_default (.value (.text s)) with
          context := ⟨q.context, hcontext, huser, huser'⟩ }
      obtain ⟨found, hfound, hreports⟩ := codePatterns_reports hconfig q.context s.toList
      obtain ⟨_, hfound', htyped⟩ := codePatterns_finds hconfig q.context s.toList
      cases hfound.symm.trans hfound'
      have hsearch : findPatterns r.config (.value (.text s))
          ((Value.map q.context).orElse (.map [])) = .ok found := by
        unfold findPatterns
        dsimp only
        rw [hcontext, hcontext, hfound]
      obtain ⟨ranked, hranked⟩ := Recognizer.recognize_returns hr hrequest hsearch htyped
      refine ⟨ranked, hranked, fun p hp => ?_⟩
      unfold Recognizer.recognize at hranked
      obtain ⟨_, hfound', hranked⟩ := Except.bind_eq_ok.1 hranked
      cases hsearch.symm.trans hfound'
      obtain ⟨weight, -, hranked⟩ := Except.bind_eq_ok.1 hranked
      obtain ⟨p', hp', hshape⟩ :=
        exists_shape_of_mem_rankPatterns rfl rfl (.inl ⟨rfl, rfl⟩) hranked p hp
      obtain ⟨d, -, hreport⟩ := Except.exists_of_forall₂ hreports hp'
      obtain ⟨density, language, hcode⟩ := hreport.shape
      unfold Pattern.label
      rw [hshape, hcode]
      exact Except.returns_ok _
  · exact Except.gives_ok (List.forall_mem_nil _)

/-! ## The assessment -/

/-- An assessment that has what there is to tell of atoms that describe code. -/
structure IsAssessment (threshold : Quantity) (code : List Atom) (a : Assessment) : Prop where
  codeAtoms : a.codeAtoms = code
  functions : a.functions.length = numberOf .functionNode code
  classes : a.classes.length = numberOf .classNode code
  variableNodes : a.variableNodes.length = numberOf .variableNode code
  high : a.high.map (·.1) = code.filter (exceeds threshold)
  consistency : a.consistency = (consistency (Table.tally (styles code))).1
  style : a.style = (Quality.consistency (Table.tally (styles code))).2

theorem designPattern?_returns {a : Atom} (hname : a.name.IsTextOrNull) :
    Except.Returns (designPattern? a) := by
  unfold designPattern?
  cases hnamed : a.isNamed with
  | false => exact Except.returns_ok _
  | true =>
    obtain ⟨s, hs⟩ := hname.exists_text ((Bool.not_eq_true' _).mp hnamed)
    rw [hs]
    exact Except.returns_ok _

/-- Atoms with texts as names are assessed, where there is something to assess. -/
theorem exists_assessment {config : ReasoningConfig} {threshold : Quantity} {r : Recognizer}
    {atoms : List Atom} {q : Question} {patterns : List Pattern}
    (hthreshold : IsThreshold config threshold) (hnames : ∀ a ∈ atoms, a.name.IsTextOrNull)
    (hrange : ∀ a ∈ atoms, ∀ n, complexityOf a = some (.int n) → Except.Returns (floatOfInt n))
    (hpatterns : textPatterns r q = .ok patterns) (hlabels : ∀ p ∈ patterns, Except.Returns p.label)
    (hsome : ¬ (described atoms = [] ∧ patterns = [])) :
    ∃ a, assess config r atoms q = .ok a.answer ∧ IsAssessment threshold (described atoms) a := by
  have hmem : ∀ a ∈ described atoms, a ∈ atoms := fun a ha => (List.mem_filter.1 ha).1
  have hmemFilter {p : Atom → Bool} : ∀ a ∈ (described atoms).filter p, a ∈ atoms :=
    fun a ha => hmem a (List.mem_filter.1 ha).1
  have hempty : ((described atoms).isEmpty && patterns.isEmpty) = false := by
    rwa [← Bool.not_eq_true, Bool.and_eq_true, List.isEmpty_iff, List.isEmpty_iff]
  obtain ⟨functions, hfunctions, hmeasured⟩ : Except.Gives
      (AreMeasured threshold ((described atoms).filter (·.hasType .functionNode)))
      (((described atoms).filter (·.hasType .functionNode)).mapM withComplexity) :=
    mapM_withComplexity_gives hthreshold fun a ha => hrange a (hmemFilter a ha)
  have hstyles := stylesOf_eq (fun a ha => exists_type_of_mem_described ha) fun a ha =>
    hnames a (hmem a ha)
  obtain ⟨designs, hdesigns⟩ : Except.Returns
      (((described atoms).filter (·.hasType .classNode)).mapM designPattern?) :=
    Except.returns_mapM fun a ha => designPattern?_returns (hnames a (hmemFilter a ha))
  obtain ⟨high, hhigh, hreported⟩ := mapM_reported?_gives hthreshold hmeasured
  obtain ⟨labels, hlabels⟩ := Except.returns_mapM hlabels
  have hmentioned : Value.mention ((high.filterMap id).map (·.1.name)) = .ok () := by
    refine Value.mention_of_forall (List.forall_mem_map.2 fun e he => ?_)
    have ha : e.1 ∈ (high.filterMap id).map (·.1) := List.mem_map_of_mem he
    rw [hreported] at ha
    exact (hnames _ (hmemFilter _ (List.mem_filter.1 ha).1)).isWritable
  unfold assess
  dsimp only
  rw [show atoms.filter (·.hasTypeIn codeTypes) = described atoms from rfl, hpatterns,
    Except.ok_bind, hempty, if_neg Bool.false_ne_true, hfunctions, Except.ok_bind, hstyles,
    Except.ok_bind, hdesigns, Except.ok_bind, hhigh, Except.ok_bind, hlabels, Except.ok_bind,
    hmentioned, Except.ok_bind]
  refine ⟨_, rfl, ?_⟩
  rw [styleCounts_eq]
  exact
    { codeAtoms := rfl
      functions := by
        rw [← List.length_map (·.1), hmeasured.1]
        rfl
      classes := rfl
      variableNodes := rfl
      high := by
        rw [hreported, List.filter_filter]
        exact List.filter_congr fun a _ => Bool.and_comm _ _
      consistency := rfl
      style := rfl }

/-! ## The answer -/

theorem ofKind_of_forall {kind kind' : String} {ss : List Suggestion} (h : ∀ s ∈ ss, s.kind = kind) :
    ofKind kind' ss = if kind = kind' then ss else [] := by
  unfold ofKind
  split
  · rename_i hsame
    exact List.filter_eq_self.2 fun s hs => beq_iff_eq.2 ((h s hs).trans hsame)
  · rename_i hdiffer
    exact List.filter_eq_nil_iff.2 fun s hs hsame =>
      hdiffer ((h s hs).symm.trans (beq_iff_eq.1 hsame))

theorem ofKind_suggestions (kind : String) (a : Assessment) : ofKind kind a.suggestions =
    (if "reduce-complexity" = kind then a.high.map Suggestion.reduceComplexity else []) ++
      (if "add-truth-values" = kind then
        if a.untrusted.isEmpty then [] else [Suggestion.addTruthValues a.untrusted] else []) ++
      if "consistent-naming" = kind then
        if a.consistency < 1 then [Suggestion.consistentNaming a.style] else [] else [] := by
  have hreduce : ∀ s ∈ a.high.map Suggestion.reduceComplexity, s.kind = "reduce-complexity" :=
    List.forall_mem_map.2 fun _ _ => rfl
  have htruths : ∀ s ∈ (if a.untrusted.isEmpty then [] else [Suggestion.addTruthValues a.untrusted]),
      s.kind = "add-truth-values" := by
    split
    · exact List.forall_mem_nil _
    · exact List.forall_mem_singleton.2 rfl
  have hnaming : ∀ s ∈ (if a.consistency < 1 then [Suggestion.consistentNaming a.style] else []),
      s.kind = "consistent-naming" := by
    split
    · exact List.forall_mem_singleton.2 rfl
    · exact List.forall_mem_nil _
  unfold Assessment.suggestions
  rw [ofKind, List.filter_append, List.filter_append]
  exact congrArg₂ _ (congrArg₂ _ (ofKind_of_forall hreduce) (ofKind_of_forall htruths))
    (ofKind_of_forall hnaming)

theorem kind_mem_of_mem_suggestions {a : Assessment} : ∀ s ∈ a.suggestions,
    s.kind ∈ ["reduce-complexity", "add-truth-values", "consistent-naming"] := by
  intro s hs
  have hmem : s ∈ ofKind s.kind a.suggestions := List.mem_filter.2 ⟨hs, beq_self_eq_true _⟩
  by_contra hkind
  simp only [List.mem_cons, List.not_mem_nil, or_false, not_or] at hkind
  obtain ⟨hreduce, htruths, hnaming⟩ := hkind
  rw [ofKind_suggestions, if_neg (Ne.symm hreduce), if_neg (Ne.symm htruths),
    if_neg (Ne.symm hnaming)] at hmem
  cases hmem

theorem states_toAtom (ss : List Suggestion) :
    List.Forall₂ States ss (ss.map Suggestion.toAtom) := by
  rw [List.forall₂_map_right_iff]
  exact List.forall₂_same.2 fun _ _ => ⟨rfl, rfl, rfl, rfl⟩

namespace IsAssessment

variable {threshold : Quantity} {code : List Atom} {a : Assessment}
  (h : IsAssessment threshold code a)
include h

theorem reduce : List.Forall₂ (fun f s => s.target = f.name ∧ s.atoms = none)
    (code.filter (exceeds threshold)) (ofKind "reduce-complexity" a.suggestions) := by
  rw [ofKind_suggestions, if_pos rfl, if_neg (by decide), if_neg (by decide), List.append_nil,
    List.append_nil, ← h.high, List.forall₂_map_left_iff, List.forall₂_map_right_iff]
  exact List.forall₂_same.2 fun _ _ => ⟨rfl, rfl⟩

theorem truths : OnceIf (∃ b ∈ code, b.truth.isEmpty = true)
    (fun s => s.atoms = some ((code.filter (·.truth.isEmpty)).map (·.name)))
    (ofKind "add-truth-values" a.suggestions) := by
  have huntrusted : a.untrusted = (code.filter (·.truth.isEmpty)).map (·.name) := by
    unfold Assessment.untrusted
    rw [h.codeAtoms]
  rw [ofKind_suggestions, if_neg (show "reduce-complexity" ≠ "add-truth-values" by decide),
    if_pos rfl, if_neg (show "consistent-naming" ≠ "add-truth-values" by decide), List.nil_append,
    List.append_nil, huntrusted]
  split
  · rename_i hnone
    rw [List.isEmpty_iff, List.map_eq_nil_iff, List.filter_eq_nil_iff] at hnone
    exact .inr ⟨fun ⟨b, hb, hempty⟩ => hnone b hb hempty, rfl⟩
  · rename_i hsome
    rw [List.isEmpty_iff, List.map_eq_nil_iff, List.filter_eq_nil_iff] at hsome
    push Not at hsome
    exact .inl ⟨hsome, _, rfl, rfl⟩

theorem mostFrequent : IsMostFrequent (styles code) a.style := by
  rw [h.style]
  exact (consistency_spec (styles code)).1

/-- The share of the most common style is one if names are in one style. -/
theorem share_eq_one_iff : share (styles code) a.style = 1 ↔ ¬ Mixed code :=
  (share_spec h.mostFrequent).2.2.trans not_mixed_iff.symm

theorem length_high_le : a.high.length ≤ a.functions.length := by
  have hhigh : code.filter (exceeds threshold) = (code.filter (·.hasType .functionNode)).filter
      fun b => (complexityOf b).any threshold.less := by
    rw [List.filter_filter]
    exact List.filter_congr fun b _ => Bool.and_comm _ _
  rw [← List.length_map (·.1), h.high, h.functions, hhigh]
  exact List.length_filter_le _ _

theorem high_eq_nil_iff : a.high.length = 0 ↔ ∀ b ∈ code, exceeds threshold b = false := by
  rw [← List.length_map (·.1), h.high, List.length_eq_zero_iff, List.filter_eq_nil_iff]
  simp only [Bool.not_eq_true]

theorem exactScore : 0 ≤ exactMaintainability threshold code a.style ∧
    exactMaintainability threshold code a.style ≤ 1 ∧
    (exactMaintainability threshold code a.style = 1 ↔
      (∀ b ∈ code, exceeds threshold b = false) ∧ ¬ Mixed code) := by
  have hle := h.length_high_le
  obtain ⟨hlow, hhigh, -⟩ := share_spec h.mostFrequent
  have hcomplex : (a.high.length / a.functions.length : ℚ) = 0 ↔ a.high.length = 0 := by
    rw [div_eq_zero_iff, Nat.cast_eq_zero, Nat.cast_eq_zero]
    omega
  have hlength : (code.filter (exceeds threshold)).length = a.high.length := by
    rw [← h.high, List.length_map]
  have hunit : (a.high.length / a.functions.length : ℚ) ≤ 1 :=
    div_le_one_of_le₀ (by exact_mod_cast hle) (Nat.cast_nonneg _)
  unfold exactMaintainability
  rw [hlength, ← h.functions, ← h.high_eq_nil_iff, ← h.share_eq_one_iff, ← hcomplex]
  exact exactScore_spec ⟨by positivity, hunit⟩ ⟨hlow, hhigh⟩

section

variable (hsize : code.length ≤ 2 ^ 50)
include hsize

theorem isNearest_consistency : IsNearest a.consistency (share (styles code) a.style) ∧
    IsPart (share (styles code) a.style) := by
  have hlength : (styles code).length ≤ 2 ^ 50 := by
    refine le_trans ?_ hsize
    unfold styles
    refine (List.length_filter_le _ _).trans ?_
    rw [List.length_map]
    exact List.length_filter_le _ _
  rw [h.consistency, h.style]
  exact ⟨(consistency_spec (styles code)).2 hlength, isPart_share hlength⟩

theorem consistency_lt_one_iff : a.consistency < 1 ↔ Mixed code := by
  obtain ⟨hnearest, hpart⟩ := h.isNearest_consistency hsize
  rw [hnearest.lt_one_iff hpart, Ne, h.share_eq_one_iff, not_not]

theorem naming : OnceIf (Mixed code) (fun s => s.atoms = none)
    (ofKind "consistent-naming" a.suggestions) := by
  rw [ofKind_suggestions, if_neg (by decide), if_neg (by decide), if_pos rfl, List.nil_append,
    List.nil_append]
  split
  · rename_i hlt
    exact .inl ⟨(h.consistency_lt_one_iff hsize).1 hlt, _, rfl, rfl⟩
  · rename_i hlt
    exact .inr ⟨fun hmixed => hlt ((h.consistency_lt_one_iff hsize).2 hmixed), rfl⟩

theorem score : ((a.score == 1) = true ↔ (∀ b ∈ code, exceeds threshold b = false) ∧
      ofKind "consistent-naming" a.suggestions = []) ∧
    |value a.score - exactMaintainability threshold code a.style| ≤ 1 / 2 ^ 50 := by
  have htotal : a.functions.length ≤ 2 ^ 50 := by
    rw [h.functions]
    exact (List.length_filter_le _ _).trans hsize
  have hlength : (code.filter (exceeds threshold)).length = a.high.length := by
    rw [← h.high, List.length_map]
  have hnone : ofKind "consistent-naming" a.suggestions = [] ↔ ¬ Mixed code := by
    obtain ⟨hmixed, s, hs, -⟩ | ⟨hmixed, hs⟩ := h.naming hsize
    · exact iff_of_false (by rw [hs]; exact List.cons_ne_nil _ _) (not_not.2 hmixed)
    · exact iff_of_true hs hmixed
  obtain ⟨hnearest, hpart⟩ := h.isNearest_consistency hsize
  obtain ⟨-, hone, hnear⟩ := maintainability_spec h.length_high_le htotal hnearest hpart
  rw [h.high_eq_nil_iff, h.share_eq_one_iff] at hone
  refine ⟨hone.trans (and_congr_right' hnone.symm), ?_⟩
  unfold exactMaintainability
  rw [hlength, ← h.functions]
  exact hnear

end

theorem isAnalysis (htypes : ∀ b ∈ code, ∃ t ∈ codeTypes, b.type = .text t.label) :
    IsAnalysis threshold code a.suggestions a.style a.answer where
  functions := by rw [← h.functions]; rfl
  classes := by rw [← h.classes]; rfl
  variableNodes := by rw [← h.variableNodes]; rfl
  total := numberOf_add htypes
  high := by
    rw [← h.high, List.map_map]
    rfl
  style := rfl
  mostFrequent := h.mostFrequent
  suggestions := rfl
  kinds := kind_mem_of_mem_suggestions
  reduce := h.reduce
  truths := h.truths
  naming := h.naming
  conclusion := ⟨_, _, rfl, rfl, rfl, states_toAtom _⟩
  score := ⟨_, rfl, inUnit_clampUnit _, h.score⟩
  exactShare := by
    rw [(share_spec h.mostFrequent).2.1.lt_iff_ne, Ne, h.share_eq_one_iff, not_not]
  exactScore := h.exactScore

end IsAssessment

/-- **The analysis of code.** It comes out well on all atoms with texts as names and complexities in
the range of floats, for every user. It finds nothing if no atom describes code and no pattern is in
the text of the context. Otherwise each atom that describes code is counted once, the functions above
the threshold are those suggested to be split, the atoms without a truth value are listed, names in
different styles are suggested to be made alike, and every suggestion is stated by a link. The score
is one exactly if no function is above the threshold and names are in one style. -/
theorem assess_accounts {config : ReasoningConfig} {threshold : Quantity} {r : Recognizer}
    {atoms : List Atom} {q : Question} (hthreshold : IsThreshold config threshold)
    (hconfig : r.config.IsUsable) (hr : r.WeighsUsers) (hnames : ∀ a ∈ atoms, a.name.IsTextOrNull)
    (hrange : ∀ a ∈ atoms, ∀ n, complexityOf a = some (.int n) → Except.Returns (floatOfInt n))
    (huser : (q.contextField "userId").IsTextOrNull)
    (huser' : (q.contextField "user_id").IsTextOrNull) :
    ∃ patterns answer, textPatterns r q = .ok patterns ∧ assess config r atoms q = .ok answer ∧
      (described atoms = [] ∧ patterns = [] → answer = nothing) ∧
      (¬ (described atoms = [] ∧ patterns = []) →
        ∃ ss best?, IsAnalysis threshold (described atoms) ss best? answer) := by
  obtain ⟨patterns, hpatterns, hlabels⟩ := textPatterns_gives hconfig hr huser huser'
  by_cases hnone : described atoms = [] ∧ patterns = []
  · refine ⟨patterns, nothing, hpatterns, ?_, fun _ => rfl, fun hsome => absurd hnone hsome⟩
    obtain ⟨hcode, hempty⟩ := hnone
    unfold assess
    dsimp only
    rw [show atoms.filter (·.hasTypeIn codeTypes) = described atoms from rfl, hpatterns,
      Except.ok_bind, hcode, hempty]
    rfl
  · obtain ⟨a, ha, hassessment⟩ :=
      exists_assessment hthreshold hnames hrange hpatterns hlabels hnone
    exact ⟨patterns, a.answer, hpatterns, ha, fun h => absurd h hnone, fun _ =>
      ⟨_, _, hassessment.isAnalysis fun b hb => exists_type_of_mem_described hb⟩⟩

/-- Of two functions in different styles the one with a number as its complexity is reported. -/
theorem assess_accounts_mixed :
    let function (name : String) (truth : Option TruthValue) (complexity : Value) : Atom :=
      .make .functionNode (.text name) truth (Entries.ofFields [("complexity", complexity)]) []
    let atoms := [function "getUser" none (.int 12), .make .conceptNode (.text "user") none [] [],
      .make .classNode (.text "OrderService") (some ⟨1, 1⟩) [] [],
      function "load_all" (some ⟨1, 1⟩) (.bool true)]
    let q : Question := ⟨.null, none, [], []⟩
    let r := (Engine.start {}).recognizer
    IsThreshold {} (.float 10) ∧ r.config.IsUsable ∧ r.WeighsUsers ∧
    (∀ a ∈ atoms, a.name.IsTextOrNull) ∧
    (∀ a ∈ atoms, ∀ n, complexityOf a = some (.int n) → Except.Returns (floatOfInt n)) ∧
    ∃ answer ss m, assess {} r atoms q = .ok answer ∧
      metric answer "functionCount" = .count 2 ∧
      metric answer "highComplexityFunctions" = .list [.text "getUser"] ∧
      Entries.field answer.metadata "suggestions" = .list (ss.map Suggestion.toValue) ∧
      (∃ s, ofKind "add-truth-values" ss = [s] ∧ s.atoms = some [.text "getUser"]) ∧
      (∃ s, ofKind "consistent-naming" ss = [s]) ∧
      metric answer "maintainability" = .float m ∧ (m == 1) = false := by
  intro function atoms q r
  have hconfig : r.config.IsUsable := DetectionConfig.isUsable_default
  have hr : r.WeighsUsers := Engine.recognizer_weighsUsers _
  have hnames : ∀ a ∈ atoms, a.name.IsTextOrNull := by
    repeat rw [List.forall_mem_cons]
    exact ⟨.inr ⟨_, rfl⟩, .inr ⟨_, rfl⟩, .inr ⟨_, rfl⟩, .inr ⟨_, rfl⟩, List.forall_mem_nil _⟩
  have hrange : ∀ a ∈ atoms, ∀ n, complexityOf a = some (.int n) → Except.Returns (floatOfInt n) := by
    repeat rw [List.forall_mem_cons]
    refine ⟨fun n hn => ?_, nofun, nofun, nofun, List.forall_mem_nil _⟩
    cases hn
    exact Except.returns_of_isOk (by decide +kernel)
  refine ⟨isThreshold_default, hconfig, hr, hnames, hrange, ?_⟩
  obtain ⟨patterns, answer, -, hanswer, -, hsome⟩ :=
    assess_accounts (q := q) isThreshold_default hconfig hr hnames hrange (.inl rfl) (.inl rfl)
  have hcode : described atoms = [function "getUser" none (.int 12),
    .make .classNode (.text "OrderService") (some ⟨1, 1⟩) [] [],
    function "load_all" (some ⟨1, 1⟩) (.bool true)] := rfl
  have hhigh : (described atoms).filter (exceeds (.float 10)) =
      [function "getUser" none (.int 12)] := by
    rw [hcode]
    rfl
  have hsize : (described atoms).length ≤ 2 ^ 50 := by
    rw [hcode]
    decide
  have hmixed : Mixed (described atoms) := by
    have hlast : function "load_all" (some ⟨1, 1⟩) (.bool true) ∈ described atoms :=
      List.mem_of_getLast? rfl
    exact ⟨_, hcode ▸ List.mem_cons_self, _, hlast, .camel, .snake, ⟨rfl, .inl rfl, rfl, nofun⟩,
      ⟨rfl, .inl rfl, rfl, nofun⟩, nofun⟩
  obtain ⟨ss, best?, h⟩ := hsome fun hnone => by rw [hcode] at hnone; cases hnone.1
  obtain ⟨m, hm, -, hscore⟩ := h.score
  refine ⟨answer, ss, m, hanswer, h.functions, ?_, h.suggestions, ?_, ?_, hm, ?_⟩
  · rw [h.high, hhigh]
    rfl
  · obtain ⟨-, s, hs, habout⟩ | ⟨hnone, -⟩ := h.truths
    · exact ⟨s, hs, habout⟩
    · exact absurd ⟨_, hcode ▸ List.mem_cons_self, rfl⟩ hnone
  · obtain ⟨-, s, hs, -⟩ | ⟨hnone, -⟩ := h.naming hsize
    · exact ⟨s, hs⟩
    · exact absurd hmixed hnone
  · rw [← Bool.not_eq_true, (hscore hsize).1]
    rintro ⟨hnone, -⟩
    have hmem : function "getUser" none (.int 12) ∈
        (described atoms).filter (exceeds (.float 10)) := by
      rw [hhigh]
      exact List.mem_cons_self
    obtain ⟨hmem, hexceeds⟩ := List.mem_filter.1 hmem
    rw [hnone _ hmem] at hexceeds
    cases hexceeds

end Quality

end KnowledgeGraph
