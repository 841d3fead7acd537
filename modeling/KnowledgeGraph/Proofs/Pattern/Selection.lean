import KnowledgeGraph.Pattern.Ranking
import KnowledgeGraph.Proofs.Except
import KnowledgeGraph.Proofs.Sorting
import KnowledgeGraph.Proofs.Value

/-!
# What ranking selects

The patterns that `rankPatterns` returns are the first of all that pass the filters, listed by
falling confidence, where equal ones keep their order (`rankPatterns_selects`). The list is sorted by
a comparison of floats, which is an order only because there is no not-a-number among the rescored
confidences (`byConfidence_isRanking`).
-/

namespace KnowledgeGraph

/-! ## What passes -/

namespace RankingOptions

/-- The pattern types that are named, none if there is no list of them. -/
def Names (options : RankingOptions) (types : List String) : Prop :=
  options.patternTypes = .null ∧ types = [] ∨ options.patternTypes = .texts types

/-- Whether a pattern is certain enough, or all are wanted. -/
def admits (options : RankingOptions) (bound : Quantity) (p : Pattern) : Bool :=
  !options.includeLowConfidence.isAbsent || (Quantity.float p.confidence).atLeast bound

end RankingOptions

namespace Pattern

/-- Whether a pattern has one of the named types, if any are named. -/
def hasTypeIn (types : List String) (p : Pattern) : Bool :=
  types.isEmpty || match p.shape.tag with
    | .ok (.text t) => types.contains t
    | _ => false

theorem hasTypeIn_iff {types : List String} {p : Pattern} :
    p.hasTypeIn types = true ↔ types = [] ∨ ∃ t ∈ types, p.shape.tag = .ok (.text t) := by
  unfold hasTypeIn
  rw [Bool.or_eq_true, List.isEmpty_iff]
  refine or_congr_right ?_
  split
  · rename_i t htag
    rw [List.contains_iff_mem]
    constructor
    · exact fun ht => ⟨t, ht, htag⟩
    · rintro ⟨t', ht', htag'⟩
      cases htag.symm.trans htag'
      exact ht'
  · rename_i hother
    constructor
    · nofun
    · rintro ⟨t, -, htag⟩
      exact absurd htag (hother t)

/-- The test that `selectTypes` makes: it is whether the pattern has a named type, and stops where
the metadata name something that cannot be a key. -/
def typeTest (types : List String) (p : Pattern) : Except Fault Bool := do
  let key ← (← p.shape.tag).toKey
  return (types.map Scalar.text).any (·.same key)

theorem typeTest_eq_ok {types : List String} (htypes : types ≠ []) {p : Pattern} {b : Bool}
    (h : typeTest types p = .ok b) : b = p.hasTypeIn types := by
  obtain ⟨tag, htag, h⟩ := Except.bind_eq_ok.1 h
  obtain ⟨key, hkey, h⟩ := Except.bind_eq_ok.1 h
  cases h
  rw [Bool.eq_iff_iff, hasTypeIn_iff, or_iff_right htypes, List.any_eq_true, htag,
    Value.eq_scalar_of_toKey hkey]
  constructor
  · rintro ⟨s, hs, hsame⟩
    obtain ⟨t, ht, rfl⟩ := List.mem_map.1 hs
    rw [Key.eq_of_text_same hsame]
    exact ⟨t, ht, rfl⟩
  · rintro ⟨t, ht, htext⟩
    cases htext
    exact ⟨.text t, List.mem_map.2 ⟨t, ht, rfl⟩, (Key.sharp_text t).same_self⟩

end Pattern

/-! ## The filters -/

section

variable {options : RankingOptions} {bound : Quantity} {types : List String} {ps : List Pattern}

theorem selectConfident_eq (hmin : options.minConfidence.quantity = .ok bound) :
    selectConfident options ps = .ok (ps.filter (options.admits bound)) := by
  have htest : ∀ p : Pattern, (do
      return (Quantity.float p.confidence).atLeast (← options.minConfidence.quantity)) =
        (Except.ok ((Quantity.float p.confidence).atLeast bound) : Except Fault Bool) := by
    intro p
    rw [hmin]
    rfl
  unfold selectConfident RankingOptions.admits
  cases options.includeLowConfidence.isAbsent with
  | false => simp
  | true =>
    rw [if_pos rfl]
    rw [Except.filterE_of_forall fun p _ => htest p]
    rfl

theorem selectTypes_eq (hnames : options.Names types) :
    selectTypes options ps =
      if types = [] then .ok ps else filterE (Pattern.typeTest types) ps := by
  unfold selectTypes
  obtain ⟨hnull, rfl⟩ | htexts := hnames
  · rw [hnull]
    rfl
  · have hkeys : (types.map Value.text).mapM Value.toKey = .ok (types.map Scalar.text) := by
      rw [List.mapM_map]
      exact Except.mapM_of_forall fun t _ => rfl
    rw [htexts]
    cases types with
    | nil => rfl
    | cons t types =>
      show (do
        let wanted ← ((t :: types).map Value.text).mapM Value.toKey
        filterE (fun p : Pattern => do
          let key ← (← p.shape.tag).toKey
          return wanted.any (·.same key)) ps) = _
      rw [hkeys]
      rfl

theorem selectTypes_eq_ok (hnames : options.Names types) {kept : List Pattern}
    (h : selectTypes options ps = .ok kept) : kept = ps.filter (·.hasTypeIn types) := by
  rw [selectTypes_eq hnames] at h
  split at h
  · rename_i hempty
    cases h
    rw [hempty]
    exact (List.filter_eq_self.2 fun p _ => rfl).symm
  · rename_i htypes
    exact Except.filterE_eq_ok (fun p _ b hb => Pattern.typeTest_eq_ok htypes hb) h

end

/-! ## Rankings -/

/-- A list by falling confidence: it has the members of another one, those of one confidence in the
same order. -/
structure IsRanking (ps ranked : List Pattern) : Prop where
  perm : ranked.Perm ps
  falling : ranked.Pairwise fun p q => q.confidence ≤ p.confidence
  stable : ∀ c, ranked.filter (·.confidence == c) = ps.filter (·.confidence == c)

/-- Sorting by a comparison of floats makes a ranking where all confidences can be compared. -/
theorem byConfidence_isRanking {ps : List Pattern} (h : ∀ p ∈ ps, InUnit p.confidence) :
    IsRanking ps (byConfidence ps) := by
  have hsort : IsFalling (fun p => rank p.confidence) ps (byConfidence ps) :=
    isFalling_less fun p hp => (h p hp).isNaN
  refine ⟨hsort.perm, ?_, fun c => ?_⟩
  · refine hsort.falling.imp_of_mem fun {p q} hp hq hle => ?_
    exact (le_iff_rank (h q (hsort.perm.mem_iff.1 hq)).isNaN
      (h p (hsort.perm.mem_iff.1 hp)).isNaN).2 hle
  · cases hc : c.isNaN with
    | true =>
      -- The not-a-number equals no confidence.
      have hnone : ∀ p : Pattern, (p.confidence == c) = false := fun p =>
        Bool.eq_false_iff.2 fun heq => by
          rw [(isNaN_of_le (le_of_beq heq)).2] at hc
          cases hc
      simp only [hnone, List.filter_false]
    | false =>
      have htest : ∀ p ∈ ps, (p.confidence == c) = decide (rank p.confidence = rank c) := by
        intro p hp
        rw [Bool.eq_iff_iff, beq_iff_rank (h p hp).isNaN hc, decide_eq_true_iff]
      rw [List.filter_congr htest, List.filter_congr fun p hp => htest p (hsort.perm.mem_iff.1 hp)]
      exact hsort.stable (rank c)

/-! ## Selections -/

/-- The most certain of the passing patterns, as many as a limit allows: by falling confidence, with
those of one confidence in their order and from the first on, and none left out that is above one of
those listed. -/
structure IsSelection (passing : List Pattern) (limit : Int) (ranked : List Pattern) : Prop where
  inUnit : ∀ p ∈ ranked, InUnit p.confidence
  falling : ranked.Pairwise fun p q => q.confidence ≤ p.confidence
  stable : ∀ c, ranked.filter (·.confidence == c) <+: passing.filter (·.confidence == c)
  length : (ranked.length : Int) = min (max 0 limit) passing.length
  best : ∃ rest, (ranked ++ rest).Perm passing ∧
    ∀ p ∈ ranked, ∀ q ∈ rest, q.confidence ≤ p.confidence

theorem IsRanking.take {passing all : List Pattern} (h : IsRanking passing all)
    (hunit : ∀ p ∈ passing, InUnit p.confidence) (limit : Int) :
    IsSelection passing limit (all.take limit.toNat) where
  inUnit p hp := hunit p (h.perm.mem_iff.1 (List.mem_of_mem_take hp))
  falling := h.falling.sublist (List.take_sublist _ _)
  stable c := by
    rw [← h.stable c]
    exact (List.take_prefix _ _).filter _
  length := by
    rw [List.length_take, h.perm.length_eq]
    omega
  best := by
    refine ⟨all.drop limit.toNat, ?_, ?_⟩
    · rw [List.take_append_drop]
      exact h.perm
    · have hfalling := h.falling
      rw [← List.take_append_drop limit.toNat all, List.pairwise_append] at hfalling
      exact hfalling.2.2

section

variable {scope weight : Value} {options : RankingOptions} {bound : Quantity} {types : List String}
  {n : Int} {ps ranked : List Pattern}

/-- What ranking needs of its input: a scope that can be a key, a weight that can be a factor and,
where types are named, metadata that name something that can be a key. -/
structure IsUsable (scope weight : Value) (types : List String) (ps : List Pattern) : Prop where
  scope : ∃ key, scope.toKey = .ok key
  weight : ∃ w, weight.operand = .ok w
  tags : types ≠ [] → ∀ p ∈ ps, ∃ tag key, p.shape.tag = .ok tag ∧ tag.toKey = .ok key

/-- Rescoring changes nothing but the confidence, which stays in the unit interval. -/
theorem rescore_eq_ok {p r : Pattern} (h : rescore scope weight p = .ok r) :
    InUnit r.confidence ∧ r.shape = p.shape ∧ r.instances = p.instances := by
  obtain ⟨factor, -, h⟩ := Except.bind_eq_ok.1 h
  obtain ⟨w, -, h⟩ := Except.bind_eq_ok.1 h
  cases h
  exact ⟨inUnit_clampUnit _, rfl, rfl⟩

theorem exists_rescore (h : IsUsable scope weight types ps) (p : Pattern) :
    ∃ r, rescore scope weight p = .ok r := by
  obtain ⟨key, hkey⟩ := h.scope
  obtain ⟨w, hw⟩ := h.weight
  unfold rescore scopeFactor
  rw [hkey, hw]
  exact ⟨_, rfl⟩

theorem rescored_inUnit {rescored : List Pattern}
    (h : ps.mapM (rescore scope weight) = .ok rescored) : ∀ r ∈ rescored, InUnit r.confidence := by
  intro r hr
  obtain ⟨p, -, hp⟩ := Except.exists_source_of_mapM_eq_ok h hr
  exact (rescore_eq_ok hp).1

theorem rankPatterns_eq_ok (hmax : options.maxResults = .int n)
    (hmin : options.minConfidence.quantity = .ok bound) :
    rankPatterns scope options weight ps = .ok ranked ↔
      ∃ rescored kept, ps.mapM (rescore scope weight) = .ok rescored ∧
        selectTypes options (rescored.filter (options.admits bound)) = .ok kept ∧
        ranked = (byConfidence kept).take n.toNat := by
  unfold rankPatterns
  simp only [selectConfident_eq hmin, hmax, resultLimit, Except.ok_bind, Except.bind_eq_ok,
    Except.pure_eq, Except.ok.injEq]
  constructor
  · rintro ⟨rescored, hrescored, kept, hkept, rfl⟩
    exact ⟨rescored, kept, hrescored, hkept, rfl⟩
  · rintro ⟨rescored, kept, hrescored, hkept, rfl⟩
    exact ⟨rescored, hrescored, kept, hkept, rfl⟩

theorem exists_rankPatterns (hmax : options.maxResults = .int n)
    (hmin : options.minConfidence.quantity = .ok bound) (hnames : options.Names types)
    (h : IsUsable scope weight types ps) :
    ∃ ranked, rankPatterns scope options weight ps = .ok ranked := by
  choose f hf using exists_rescore h
  have hrescored : ps.mapM (rescore scope weight) = .ok (ps.map f) :=
    Except.mapM_of_forall fun p _ => hf p
  obtain ⟨kept, hkept⟩ : ∃ kept,
      selectTypes options ((ps.map f).filter (options.admits bound)) = .ok kept := by
    rw [selectTypes_eq hnames]
    split
    · exact ⟨_, rfl⟩
    · rename_i htypes
      refine Except.exists_filterE fun r hr => ?_
      obtain ⟨p, hp, rfl⟩ := List.mem_map.1 (List.mem_filter.1 hr).1
      obtain ⟨tag, key, htag, hkey⟩ := h.tags htypes p hp
      rw [← (rescore_eq_ok (hf p)).2.1] at htag
      unfold Pattern.typeTest
      rw [htag, Except.ok_bind, hkey]
      exact ⟨_, rfl⟩
  exact ⟨_, (rankPatterns_eq_ok hmax hmin).2 ⟨_, kept, hrescored, hkept, rfl⟩⟩

theorem exists_shape_of_mem_rankPatterns (hmax : options.maxResults = .int n)
    (hmin : options.minConfidence.quantity = .ok bound) (hnames : options.Names types)
    (h : rankPatterns scope options weight ps = .ok ranked) :
    ∀ r ∈ ranked, ∃ p ∈ ps, r.shape = p.shape := by
  obtain ⟨rescored, kept, hrescored, hkept, rfl⟩ := (rankPatterns_eq_ok hmax hmin).1 h
  intro r hr
  have hmem : r ∈ kept := (List.mergeSort_perm _ _).mem_iff.1 (List.mem_of_mem_take hr)
  rw [selectTypes_eq_ok hnames hkept] at hmem
  obtain ⟨p, hp, hrescore⟩ := Except.exists_source_of_mapM_eq_ok hrescored
    (List.mem_filter.1 (List.mem_filter.1 hmem).1).1
  exact ⟨p, hp, (rescore_eq_ok hrescore).2.1⟩

/-- **Exact ranked selection.** Ranking comes out well on usable input. What comes out are the most
certain of the rescored patterns that pass the filters, and with a higher limit it goes on. -/
theorem rankPatterns_selects (hmax : options.maxResults = .int n)
    (hmin : options.minConfidence.quantity = .ok bound) (hnames : options.Names types) :
    (IsUsable scope weight types ps →
      ∃ ranked, rankPatterns scope options weight ps = .ok ranked) ∧
    ∀ ranked, rankPatterns scope options weight ps = .ok ranked →
      (∃ rescored, ps.mapM (rescore scope weight) = .ok rescored ∧
        IsSelection (rescored.filter fun p => options.admits bound p && p.hasTypeIn types) n
          ranked) ∧
      (∀ p ∈ ranked, options.admits bound p = true ∧
        (types = [] ∨ ∃ t ∈ types, p.shape.tag = .ok (.text t))) ∧
      ∀ m, n ≤ m → ∃ more,
        rankPatterns scope { options with maxResults := .int m } weight ps = .ok more ∧
          ranked <+: more := by
  refine ⟨exists_rankPatterns hmax hmin hnames, fun ranked h => ?_⟩
  obtain ⟨rescored, kept, hrescored, hkept, rfl⟩ := (rankPatterns_eq_ok hmax hmin).1 h
  have hpassing : kept =
      rescored.filter fun p => options.admits bound p && p.hasTypeIn types := by
    rw [selectTypes_eq_ok hnames hkept, List.filter_filter]
    simp only [Bool.and_comm]
  have hunit : ∀ p ∈ kept, InUnit p.confidence := by
    intro p hp
    rw [hpassing] at hp
    exact rescored_inUnit hrescored p (List.mem_filter.1 hp).1
  have hranking := byConfidence_isRanking hunit
  refine ⟨⟨rescored, hrescored, hpassing ▸ hranking.take hunit n⟩, fun p hp => ?_, fun m hm => ?_⟩
  · have hmem : p ∈ kept := hranking.perm.mem_iff.1 (List.mem_of_mem_take hp)
    rw [hpassing, List.mem_filter, Bool.and_eq_true, Pattern.hasTypeIn_iff] at hmem
    exact hmem.2
  · refine ⟨(byConfidence kept).take m.toNat, ?_, ?_⟩
    · refine (rankPatterns_eq_ok (n := m) ?_ ?_).2 ⟨rescored, kept, hrescored, hkept, rfl⟩
      · rfl
      · exact hmin
    · exact List.take_prefix_take_left (Int.toNat_le_toNat hm)

end

/-- A pattern that names a pattern type. -/
def Pattern.named (type : Value) (confidence : Float) : Pattern :=
  ⟨.described (.map []) (.record [("patternType", type)]), confidence, []⟩

/-- The not-a-number is a weight like others. -/
theorem rankPatterns_selects_notANumber :
    ∃ ranked, rankPatterns .null { maxResults := .int 1, patternTypes := .texts ["flow"] }
      (.float notANumber) [.named (.text "flow") 0.2, .named (.text "flow") 0.9] = .ok ranked ∧
      ranked.length = 1 := by
  have husable : IsUsable .null (.float notANumber) ["flow"]
      [.named (.text "flow") 0.2, .named (.text "flow") 0.9] :=
    { scope := ⟨_, rfl⟩
      weight := ⟨_, rfl⟩
      tags := fun _ => List.forall_mem_cons.2 ⟨⟨_, _, rfl, rfl⟩,
        List.forall_mem_singleton.2 ⟨_, _, rfl, rfl⟩⟩ }
  have hnames : RankingOptions.Names { maxResults := .int 1, patternTypes := .texts ["flow"] }
      ["flow"] := .inr rfl
  obtain ⟨hexists, hall⟩ := rankPatterns_selects (n := 1) rfl rfl hnames
  obtain ⟨ranked, hranked⟩ := hexists husable
  obtain ⟨⟨rescored, hrescored, hselection⟩, -⟩ := hall ranked hranked
  refine ⟨ranked, hranked, ?_⟩
  have hlength := hselection.length
  cases hrescored
  exact_mod_cast hlength.trans (by decide +kernel : _ = (1 : ℤ))

/-! ## Where ranking stops -/

/-- A weight that is no factor is a fault as soon as there is a pattern. -/
theorem rankPatterns_error_of_weight {scope weight : Value} {key : Scalar} {f : Fault}
    (hscope : scope.toKey = .ok key) (hweight : weight.operand = .error f)
    (options : RankingOptions) (p : Pattern) (ps : List Pattern) :
    rankPatterns scope options weight (p :: ps) = .error f := by
  have hrescore : rescore scope weight p = .error f := by
    unfold rescore scopeFactor
    rw [hscope, hweight]
    rfl
  unfold rankPatterns
  rw [List.mapM_cons, hrescore]
  rfl

/-- A weight beyond the range of floats, a scope that is no key and, where types are named, a pattern
type that is no key are faults. -/
theorem rankPatterns_stops :
    rankPatterns .null {} (.int (10 ^ 400)) [.named .null 1] = .error .outOfRange ∧
    rankPatterns (.list []) {} (.float 1) [.named .null 1] = .error .wrongKind ∧
    rankPatterns .null { patternTypes := .texts ["flow"], includeLowConfidence := .bool true }
      (.float 1) [.named (.list []) 1] = .error .wrongKind := by
  refine ⟨?_, rfl, rfl⟩
  have hweight : (Value.int (10 ^ 400)).operand = .error .outOfRange := by
    rw [Value.operand_int, floatOfInt_tooLarge]
  exact rankPatterns_error_of_weight rfl hweight _ _ _

end KnowledgeGraph
