import KnowledgeGraph.Proofs.Best
import KnowledgeGraph.Proofs.Kinds
import KnowledgeGraph.Proofs.Number.Quotient
import KnowledgeGraph.Proofs.Pattern.Detection
import KnowledgeGraph.Proofs.Value

/-!
# Types and tokens that atoms share

The atoms of a type form a cluster if there are two of them or more (`typeClusters_exact`), and the
tokens that the names of two atoms or more have in common make a naming convention
(`namingConvention?_exact`). However often a name repeats a token, its atom counts once for it
(`count_tokenSets`), and a name that is null or empty has no tokens (`isNamed_of_mem_tokens`).
-/

namespace KnowledgeGraph

/-! ## Clusters -/

def ofType (atoms : List Atom) (type : Value) : List Atom := atoms.filter (·.type = type)

/-- The cluster of a type: all atoms of the type, in order, with their number. -/
structure IsCluster (atoms : List Atom) (type : Value) (p : Pattern) : Prop where
  shape : p.shape = .typeCluster type (ofType atoms type).length
  instances : p.instances = (ofType atoms type).map .known
  description : p.shape.description Slot.plain = .ok (.record [("type", .text "type-cluster"),
    ("atomType", type), ("count", .count (ofType atoms type).length)])
  confidence : InUnit p.confidence

/-- The key under which an atom is grouped. -/
def Atom.typeKey (a : Atom) : Scalar :=
  match a.type with
  | .scalar k => k
  | _ => .null

section

variable {atoms : List Atom} (htypes : ∀ a ∈ atoms, ∃ s, a.type = .text s)
include htypes

theorem groupByType_eq (groups : Table Scalar (List Atom)) :
    groupByType atoms groups = .ok (atoms.foldl (fun t a => t.addTo a.typeKey a) groups) := by
  induction atoms generalizing groups with
  | nil => rfl
  | cons a atoms ih =>
    rw [List.forall_mem_cons] at htypes
    obtain ⟨⟨s, hs⟩, hrest⟩ := htypes
    unfold groupByType
    rw [hs, Value.toKey, Except.ok_bind, ih hrest, List.foldl_cons]
    unfold Atom.typeKey
    rw [hs]

theorem tells_typeKey : Table.Tells Atom.typeKey Atom.type atoms := by
  intro a ha b hb
  obtain ⟨s, hs⟩ := htypes a ha
  obtain ⟨t, ht⟩ := htypes b hb
  unfold Atom.typeKey
  rw [hs, ht]
  exact (Key.sharp_text t _).trans (by simp)

/-- The types that two atoms or more have, in the order of their first atoms, have their clusters. -/
theorem typeClusters_exact : ∃ found, typeClusters atoms = .ok found ∧
    List.Forall₂ (IsCluster atoms)
      ((atoms.map (·.type)).eraseDups.filter fun type => 2 ≤ (ofType atoms type).length) found := by
  unfold typeClusters
  rw [groupByType_eq htypes, Except.ok_bind, Table.foldl_addTo (tells_typeKey htypes), List.filter_map]
  refine ⟨_, rfl, ?_⟩
  rw [← map_firsts, List.filter_map, List.map_map, List.forall₂_map_left_iff,
    List.forall₂_map_right_iff]
  refine List.forall₂_same.2 fun a ha => ?_
  obtain ⟨s, hs⟩ := htypes a (mem_of_mem_firsts (List.mem_filter.1 ha).1)
  have hkey : Value.scalar a.typeKey = a.type := by
    unfold Atom.typeKey
    rw [hs]
  dsimp only [Function.comp_apply]
  rw [hkey]
  exact ⟨rfl, rfl, rfl, inUnit_confidenceOf _⟩

end

/-! ## Names and their tokens -/

namespace Atom

/-- The characters of a name; none if it is no text. -/
def nameChars (a : Atom) : List Char :=
  match a.name with
  | .text s => s.toList
  | _ => []

/-- The tokens of a name, in lower case. -/
def tokens (a : Atom) : List String :=
  (Text.nameTokens a.nameChars).map fun t => String.ofList (Text.lower t)

end Atom

/-- The atoms whose names have a token. -/
def withToken (atoms : List Atom) (t : String) : List Atom := atoms.filter (t ∈ ·.tokens)

/-- The atoms whose names have one of some tokens. -/
def withOneOf (atoms : List Atom) (tokens : List String) : List Atom :=
  (atoms.filter Atom.isNamed).filter fun a => a.tokens.any (· ∈ tokens)

/-- A naming convention: all tokens that the names of two atoms or more have, those that more atoms
have before the others, and the atoms whose names have such a token, with their share of the atoms
with names and the one style that their names have, if it is one. -/
structure IsNaming (atoms : List Atom) (p : Pattern) (tokens : List String)
    (style : Option Text.NamingStyle) (coverage : Float) : Prop where
  shape : p.shape = .naming tokens style coverage
  nodup : tokens.Nodup
  shared : ∀ t, t ∈ tokens ↔ 2 ≤ (withToken atoms t).length
  falling : tokens.Pairwise fun s t => (withToken atoms t).length ≤ (withToken atoms s).length
  instances : p.instances = (withOneOf atoms tokens).map .known
  style_eq : ∀ s, style = some s ↔ ∀ a ∈ withOneOf atoms tokens, Text.namingStyle a.nameChars = s
  share : IsShare coverage (withOneOf atoms tokens).length (atoms.filter Atom.isNamed).length
  description : p.shape.description Slot.plain = .ok (.record [("type", .text "naming-convention"),
    ("sharedTokens", .texts tokens), ("style", .text ((style.map (·.label)).getD "mixed"))])
  confidence : InUnit p.confidence

theorem Atom.nameChars_of_not_isNamed {a : Atom} (hname : a.name.IsTextOrNull)
    (h : ¬ a.isNamed = true) : a.nameChars = [] := by
  unfold isNamed at h
  unfold nameChars
  obtain hnull | ⟨s, hs⟩ := hname
  · rw [hnull]
  · rw [hs] at h ⊢
    have hempty : s = "" := by simpa [Value.isAbsent, Scalar.isAbsent] using h
    rw [hempty]
    rfl

theorem Atom.isNamed_of_mem_tokens {a : Atom} {t : String} (hname : a.name.IsTextOrNull)
    (h : t ∈ a.tokens) : a.isNamed = true := by
  by_contra hnamed
  have hempty : Text.nameTokens [] = [] := rfl
  unfold tokens at h
  rw [nameChars_of_not_isNamed hname hnamed, hempty] at h
  cases h

theorem Atom.tokenSet_nameChars (a : Atom) : tokenSet a.nameChars = a.tokens.eraseDups :=
  distinct_eq_eraseDups fun k _ => Key.sharp_string k

/-- How often a token occurs in the sets of tokens is how many atoms have it. -/
theorem count_tokenSets {atoms : List Atom} (hnames : ∀ a ∈ atoms, a.name.IsTextOrNull) (t : String) :
    ((atoms.filter Atom.isNamed).map fun a => tokenSet a.nameChars).flatten.count t =
      (withToken atoms t).length := by
  have hcount (a : Atom) : (tokenSet a.nameChars).count t = if t ∈ a.tokens then 1 else 0 := by
    rw [a.tokenSet_nameChars]
    split
    · rename_i hmem
      exact List.count_eq_one_of_mem (nodup_eraseDups _) (List.mem_eraseDups.2 hmem)
    · rename_i hmem
      exact List.count_eq_zero.2 (mt List.mem_eraseDups.1 hmem)
  unfold withToken
  induction atoms with
  | nil => rfl
  | cons a atoms ih =>
    rw [List.forall_mem_cons] at hnames
    by_cases hmem : t ∈ a.tokens
    · rw [List.filter_cons_of_pos (Atom.isNamed_of_mem_tokens hnames.1 hmem),
        List.filter_cons, if_pos (decide_eq_true hmem), List.map_cons, List.flatten_cons,
        List.count_append, hcount, if_pos hmem, ih hnames.2, List.length_cons, Nat.add_comm]
    · rw [List.filter_cons_of_neg (p := fun a : Atom => decide (t ∈ a.tokens)) (by simpa using hmem),
        ← ih hnames.2, List.filter_cons]
      split
      · rw [List.map_cons, List.flatten_cons, List.count_append, hcount, if_neg hmem, Nat.zero_add]
      · rfl

theorem keys_repeated (ks : List String) :
    let repeated := Table.keys ((Table.tally ks).byCount.filter fun e => 2 ≤ e.2)
    repeated.Nodup ∧ (∀ t, t ∈ repeated ↔ 2 ≤ ks.count t) ∧
      repeated.Pairwise fun s t => ks.count t ≤ ks.count s := by
  intro repeated
  have hsharp : ∀ k ∈ ks, Key.Sharp k := fun k _ => Key.sharp_string k
  obtain ⟨hperm, hfalling⟩ := Table.isByFrequency_byCount hsharp
  have hrepeated : repeated = (Table.tally ks).byCount.keys.filter fun t => 2 ≤ ks.count t := by
    have hcount : ∀ e ∈ (Table.tally ks).byCount, e.2 = ks.count e.1 := fun e he =>
      Table.eq_count_of_mem_tally hsharp e ((List.mergeSort_perm _ _).mem_iff.1 he)
    show Table.keys _ = List.filter _ (List.map _ _)
    rw [List.filter_map]
    exact congrArg Table.keys (List.filter_congr fun e he => by rw [hcount e he]; rfl)
  rw [hrepeated]
  refine ⟨(hperm.nodup_iff.2 (nodup_eraseDups ks)).filter _, fun t => ?_, ?_⟩
  · rw [List.mem_filter, hperm.mem_iff, List.mem_eraseDups, decide_eq_true_iff]
    exact and_iff_right_of_imp fun h => List.count_pos_iff.1 (Nat.lt_of_lt_of_le Nat.two_pos h)
  · refine (hfalling.imp fun {s t} h => ?_).filter _
    obtain h | h := h
    · exact h.le
    · exact h.1.ge

theorem commonStyle?_eq {as : List Atom} (hne : as ≠ []) (s : Text.NamingStyle) :
    commonStyle? (as.map Atom.nameChars) = some s ↔
      ∀ a ∈ as, Text.namingStyle a.nameChars = s := by
  cases as with
  | nil => exact absurd rfl hne
  | cons a as =>
    unfold commonStyle?
    simp only [List.map_cons, List.forall_mem_cons]
    split
    · rename_i hall
      simp only [List.all_map, List.all_eq_true, Function.comp_apply, beq_iff_eq] at hall
      rw [Option.some.injEq]
      exact ⟨fun h => ⟨h, fun b hb => (hall b hb).trans h⟩, And.left⟩
    · rename_i hall
      simp only [List.all_map, List.all_eq_true, Function.comp_apply, beq_iff_eq] at hall
      exact ⟨nofun, fun h => absurd (fun b hb => (h.2 b hb).trans h.1.symm) hall⟩

/-- The tokens that two atoms or more have. -/
def sharedTokens (atoms : List Atom) : List String :=
  Table.keys ((Table.tally ((atoms.filter Atom.isNamed).map
    fun a => tokenSet a.nameChars).flatten).byCount.filter fun e => 2 ≤ e.2)

section

variable {atoms : List Atom} (hnames : ∀ a ∈ atoms, a.name.IsTextOrNull)
include hnames

theorem sharedTokens_exact : (sharedTokens atoms).Nodup ∧
    (∀ t, t ∈ sharedTokens atoms ↔ 2 ≤ (withToken atoms t).length) ∧
    (sharedTokens atoms).Pairwise fun s t =>
      (withToken atoms t).length ≤ (withToken atoms s).length := by
  have h := keys_repeated ((atoms.filter Atom.isNamed).map fun a => tokenSet a.nameChars).flatten
  simp only [count_tokenSets hnames] at h
  exact h

theorem withToken_named (t : String) : withToken (atoms.filter Atom.isNamed) t = withToken atoms t := by
  unfold withToken
  rw [List.filter_filter]
  refine List.filter_congr fun a ha => ?_
  rw [Bool.eq_iff_iff, Bool.and_eq_true, decide_eq_true_iff]
  exact and_iff_left_of_imp (Atom.isNamed_of_mem_tokens (hnames a ha))

theorem namingConvention?_eq : namingConvention? atoms = .ok (
    if (atoms.filter Atom.isNamed).length < 2 then none
    else if (sharedTokens atoms).isEmpty then none
    else
      let shown := withOneOf atoms (sharedTokens atoms)
      let coverage := quotient shown.length (atoms.filter Atom.isNamed).length
      some (.of (.naming (sharedTokens atoms) (commonStyle? (shown.map Atom.nameChars)) coverage)
        (0.5 + 0.4 * coverage) (shown.map .known))) := by
  have hread : (atoms.filter Atom.isNamed).mapM Atom.nameText =
      .ok ((atoms.filter Atom.isNamed).map Atom.nameChars) := by
    refine Except.mapM_of_forall fun a ha => ?_
    obtain ⟨ha, hnamed⟩ := List.mem_filter.1 ha
    unfold Atom.nameText Atom.nameChars
    obtain hnull | ⟨s, hs⟩ := hnames a ha
    · unfold Atom.isNamed at hnamed
      rw [hnull] at hnamed
      cases hnamed
    · rw [hs]
  have hsets : ((atoms.filter Atom.isNamed).map Atom.nameChars).map tokenSet =
      (atoms.filter Atom.isNamed).map fun a => tokenSet a.nameChars := List.map_map
  have hshown (tokens : List String) : (atoms.filter Atom.isNamed).filter
      ((fun e : Atom × List Char × List String => e.2.2.any tokens.contains) ∘
        fun a => (a, a.nameChars, tokenSet a.nameChars)) = withOneOf atoms tokens := by
    refine List.filter_congr fun a _ => ?_
    show (tokenSet a.nameChars).any tokens.contains = a.tokens.any (· ∈ tokens)
    rw [a.tokenSet_nameChars, Bool.eq_iff_iff]
    simp [List.any_eq_true]
  unfold namingConvention?
  dsimp only
  rw [hread, Except.ok_bind, hsets, List.zip_map', ← List.map_prod_left_eq_zip, List.filter_map,
    List.map_map, List.map_map, List.length_map, ← sharedTokens, hshown]
  split
  · rfl
  · split
    · rfl
    · rfl

/-- A naming convention is found if a token is in the names of two atoms or more. -/
theorem namingConvention?_exact : ∃ naming, namingConvention? atoms = .ok naming ∧
    (naming.isSome = true ↔ ∃ t, 2 ≤ (withToken atoms t).length) ∧
    ∀ p ∈ naming, ∃ tokens style coverage, IsNaming atoms p tokens style coverage := by
  obtain ⟨hnodup, hmem, hfalling⟩ := sharedTokens_exact hnames
  refine ⟨_, namingConvention?_eq hnames, ?_⟩
  by_cases hnone : sharedTokens atoms = []
  · have hunshared : ¬ ∃ t, 2 ≤ (withToken atoms t).length := by
      rintro ⟨t, ht⟩
      rw [← hmem, hnone] at ht
      cases ht
    rw [hnone]
    simp [hunshared]
  · obtain ⟨t, ht⟩ := List.exists_mem_of_ne_nil _ hnone
    have htwo : 2 ≤ (withToken atoms t).length := (hmem t).1 ht
    rw [← withToken_named hnames] at htwo
    have hnamed : 2 ≤ (atoms.filter Atom.isNamed).length :=
      htwo.trans (List.length_filter_le _ _)
    have hshown : withOneOf atoms (sharedTokens atoms) ≠ [] := by
      obtain ⟨a, ha⟩ := List.exists_mem_of_length_pos (Nat.lt_of_lt_of_le Nat.two_pos htwo)
      obtain ⟨hmem, htoken⟩ := List.mem_filter.1 ha
      refine List.ne_nil_of_mem (List.mem_filter.2 ⟨hmem, List.any_eq_true.2 ⟨t, ?_, ?_⟩⟩)
      · exact of_decide_eq_true htoken
      · exact decide_eq_true ht
    rw [if_neg (Nat.not_lt.2 hnamed), if_neg (by simpa using hnone)]
    refine ⟨iff_of_true rfl ⟨t, (hmem t).1 ht⟩, fun p hp => ?_⟩
    obtain rfl := Option.some.inj hp
    exact ⟨_, _, _,
      { shape := rfl
        nodup := hnodup
        shared := hmem
        falling := hfalling
        instances := rfl
        style_eq := commonStyle?_eq hshown
        share := isShare_quotient (List.length_filter_le _ _) (Nat.lt_of_lt_of_le Nat.two_pos hnamed)
        description := rfl
        confidence := inUnit_confidenceOf _ }⟩

/-- **Types and names.** In atoms with texts for types, and with texts or nothing for names, there is
a cluster for each type that two of them have, in the order in which the types occur first, and a
naming convention if the names of two of them have a token in common. -/
theorem atomPatterns_exact (htypes : ∀ a ∈ atoms, ∃ s, a.type = .text s) :
    ∃ (found : List Pattern) (naming : Option Pattern),
      atomPatterns atoms = .ok (found ++ naming.toList) ∧
      List.Forall₂ (IsCluster atoms)
        ((atoms.map (·.type)).eraseDups.filter fun type => 2 ≤ (ofType atoms type).length) found ∧
      (naming.isSome = true ↔
        ∃ a b t, [a, b].Sublist atoms ∧ t ∈ a.tokens ∧ t ∈ b.tokens) ∧
      ∀ p ∈ naming, ∃ tokens style coverage, IsNaming atoms p tokens style coverage := by
  obtain ⟨found, hfound, hclusters⟩ := typeClusters_exact htypes
  obtain ⟨naming, hnaming, hsome, hexact⟩ := namingConvention?_exact hnames
  refine ⟨found, naming, ?_, hclusters, hsome.trans ?_, hexact⟩
  · unfold atomPatterns
    rw [hfound, hnaming]
    rfl
  · unfold withToken
    simp only [two_le_length_filter, decide_eq_true_iff]
    exact ⟨fun ⟨t, a, b, h⟩ => ⟨a, b, t, h⟩, fun ⟨a, b, t, h⟩ => ⟨t, a, b, h⟩⟩

end

/-- Two atoms of a type whose names share a token, and one without a name. -/
theorem atomPatterns_exact_getters :
    let user : Atom := ⟨.text "T", .text "get_user", .null, .empty, .empty, [], [], []⟩
    let item : Atom := ⟨.text "T", .text "getItemGet", .null, .empty, .empty, [], [], []⟩
    let unnamed : Atom := ⟨.text "U", .null, .null, .empty, .empty, [], [], []⟩
    ∃ cluster naming, atomPatterns [user, unnamed, item] = .ok [cluster, naming] ∧
      cluster.instances = [.known user, .known item] ∧
      ∃ tokens style coverage, IsNaming [user, unnamed, item] naming tokens style coverage ∧
        "get" ∈ tokens ∧ "user" ∉ tokens ∧ naming.instances = [.known user, .known item] ∧
        style = none := by
  intro user item unnamed
  have hnames : ∀ a ∈ [user, unnamed, item], a.name.IsTextOrNull := by
    simp [user, unnamed, item, Value.IsTextOrNull]
  have htypes : ∀ a ∈ [user, unnamed, item], ∃ s, a.type = .text s := by
    simp [user, unnamed, item]
  obtain ⟨found, naming, hfound, hclusters, hsome, hexact⟩ := atomPatterns_exact hnames htypes
  have huser : user.tokens = ["get", "user"] := by decide
  have hitem : item.tokens = ["get", "item", "get"] := by decide
  have hunnamed : unnamed.tokens = [] := by decide
  have htwo : ([user, unnamed, item].map (·.type)).eraseDups.filter
      (fun type => 2 ≤ (ofType [user, unnamed, item] type).length) = [.text "T"] := by decide
  rw [htwo] at hclusters
  obtain ⟨cluster, _, hcluster, ⟨⟩, rfl⟩ := List.forall₂_cons_left_iff.1 hclusters
  obtain ⟨p, rfl⟩ := Option.isSome_iff_exists.1 <| hsome.2
    ⟨user, item, "get", by simp, by simp [huser], by simp [hitem]⟩
  obtain ⟨tokens, style, coverage, hp⟩ := hexact p rfl
  have hget : "get" ∈ tokens := (hp.shared "get").2 (by decide)
  have hshown : withOneOf [user, unnamed, item] tokens = [user, item] := by
    have hnamed : [user, unnamed, item].filter Atom.isNamed = [user, item] := rfl
    unfold withOneOf
    rw [hnamed]
    simp [huser, hitem, hget]
  refine ⟨cluster, p, hfound, hcluster.instances, tokens, style, coverage, hp, hget, ?_, ?_, ?_⟩
  · exact mt (hp.shared "user").1 (by decide)
  · rw [hp.instances, hshown]
    rfl
  · cases style with
    | none => rfl
    | some s =>
      have hall := (hp.style_eq s).1 rfl
      rw [hshown] at hall
      exact absurd ((hall user (by simp)).trans (hall item (by simp)).symm) (by decide)

end KnowledgeGraph
