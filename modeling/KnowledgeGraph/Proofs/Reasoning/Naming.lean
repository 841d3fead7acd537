import KnowledgeGraph.Proofs.Reasoning.Quality
import KnowledgeGraph.Proofs.Text.Name

/-!
# Underscores around names

A name may be written with underscores before and after it, as private and reserved names are. Its
tokens stay the same, and so does its style unless that is the style of a class and underscores come
before it. So where no such name is changed, the styles of names are as consistent as before, and the
names follow the same convention (`naming_padded`).
-/

namespace KnowledgeGraph

open Text (namingStyle padded)

/-- An atom as it was, or with underscores around its name, which are not before the name of a class. -/
inductive Respelt : Atom → Atom → Prop
  | same (a : Atom) : Respelt a a
  | around {a : Atom} {s : String} {m n : ℕ} (hname : a.name = .text s)
    (hstyle : 0 < m → namingStyle s.toList ≠ .pascal) :
    Respelt a { a with name := .text (String.ofList (padded m n s.toList)) }

namespace Respelt

variable {a b : Atom} {atoms atoms' : List Atom}

theorem nameChars (h : Respelt a b) : ∃ m n, b.nameChars = padded m n a.nameChars ∧
    (0 < m → namingStyle a.nameChars ≠ .pascal) := by
  cases h with
  | same => exact ⟨0, 0, (List.append_nil _).symm, fun h => absurd h (Nat.lt_irrefl 0)⟩
  | @around s m n hname hstyle =>
    have hchars : a.nameChars = s.toList := by
      unfold Atom.nameChars
      rw [hname]
    rw [hchars]
    exact ⟨m, n, String.toList_ofList, hstyle⟩

theorem style_eq (h : Respelt a b) : namingStyle b.nameChars = namingStyle a.nameChars := by
  obtain ⟨m, n, hchars, hstyle⟩ := h.nameChars
  rw [hchars, Text.namingStyle_padded, if_neg fun h => hstyle h.1 h.2]

theorem tokens_eq (h : Respelt a b) : b.tokens = a.tokens := by
  obtain ⟨m, n, hchars, -⟩ := h.nameChars
  unfold Atom.tokens
  rw [hchars, Text.nameTokens_padded]

theorem hasTypeIn_eq (h : Respelt a b) (ts : List AtomType) : b.hasTypeIn ts = a.hasTypeIn ts := by
  cases h <;> rfl

theorem isTextOrNull (h : Respelt a b) (hname : a.name.IsTextOrNull) : b.name.IsTextOrNull := by
  cases h with
  | same => exact hname
  | around => exact .inr ⟨_, rfl⟩

theorem isNamed_eq (h : Respelt a b) (hname : a.name ≠ .text "") : b.isNamed = a.isNamed := by
  cases h with
  | same => rfl
  | @around s m n ha _ =>
    have hs : s ≠ "" := fun hs => hname (ha.trans (congrArg Value.text hs))
    have hpadded : String.ofList (padded m n s.toList) ≠ "" := by
      intro hempty
      have hnil := String.ofList_eq_empty_iff.1 hempty
      unfold padded at hnil
      rw [List.append_eq_nil_iff, List.append_eq_nil_iff] at hnil
      exact hs (String.toList_eq_nil_iff.1 hnil.1.2)
    unfold Atom.isNamed
    rw [ha]
    simp [Value.isAbsent, Scalar.isAbsent, hs, hpadded]

end Respelt

section

variable {μ : Type} {atoms atoms' : List Atom} (h : List.Forall₂ Respelt atoms atoms')
include h

/-- What does not depend on the spelling of a name is the same of all the atoms. -/
theorem map_eq_of_respelt {f : Atom → μ} (hf : ∀ a b, Respelt a b → f b = f a) :
    atoms'.map f = atoms.map f := by
  rw [← List.forall₂_eq_eq_eq, List.forall₂_map_left_iff, List.forall₂_map_right_iff]
  exact h.flip.imp fun b a => hf a b

theorem filter_respelt {p : Atom → Bool} (hp : ∀ a ∈ atoms, ∀ b, Respelt a b → p b = p a) :
    List.Forall₂ Respelt (atoms.filter p) (atoms'.filter p) := by
  induction h with
  | nil => exact .nil
  | cons hab _ ih =>
    rw [List.forall_mem_cons] at hp
    rw [List.filter_cons, List.filter_cons, hp.1 _ hab]
    split
    · exact .cons hab (ih hp.2)
    · exact ih hp.2

variable (hnames : ∀ a ∈ atoms, a.name.IsTextOrNull)
include hnames

theorem isTextOrNull_of_respelt : ∀ b ∈ atoms', b.name.IsTextOrNull := by
  intro b hb
  obtain ⟨a, ha, hab⟩ := Except.exists_of_forall₂ h hb
  exact hab.isTextOrNull (hnames a ha)

/-! ## Consistency -/

omit h in
/-- The styles that are counted; whether an atom has a name makes no difference, as the style of no
name is flat. -/
theorem counted_styles : ((atoms.filter fun a =>
      a.isNamed && !a.hasTypeIn [.classNode, .fileNode]).map fun a => namingStyle a.nameChars).filter
        (· ≠ .flat) =
    ((atoms.filter fun a => !a.hasTypeIn [.classNode, .fileNode]).map fun a =>
      namingStyle a.nameChars).filter (· ≠ .flat) := by
  rw [List.filter_map, List.filter_map, List.filter_filter, List.filter_filter]
  refine congrArg _ (List.filter_congr fun a ha => ?_)
  by_cases hnamed : a.isNamed = true
  · rw [hnamed, Bool.true_and]
  · have hflat : namingStyle a.nameChars = .flat := by
      rw [Atom.nameChars_of_not_isNamed (hnames a ha) hnamed]
      rfl
    simp [hflat]

theorem consistency_respelt : ∃ styles styles', Quality.stylesOf atoms = .ok styles ∧
    Quality.stylesOf atoms' = .ok styles' ∧
    Quality.consistency (Quality.styleCounts styles') =
      Quality.consistency (Quality.styleCounts styles) := by
  have hnames' := isTextOrNull_of_respelt h hnames
  refine ⟨_, _, Quality.stylesOf_named hnames, Quality.stylesOf_named hnames', ?_⟩
  have hrest := filter_respelt h (p := fun a => !a.hasTypeIn [.classNode, .fileNode])
    fun a _ b hab => congrArg Bool.not (hab.hasTypeIn_eq _)
  rw [Quality.styleCounts_eq, Quality.styleCounts_eq, counted_styles hnames, counted_styles hnames',
    map_eq_of_respelt hrest fun a b => Respelt.style_eq]

end

/-! ## Conventions -/

/-- The same tokens, the same style and the same share, found in atoms whose names may be spelt
otherwise. -/
structure SameNaming (p p' : Pattern) : Prop where
  shape : p'.shape = p.shape
  confidence : p'.confidence = p.confidence
  instances : ∃ as bs, p.instances = as.map .known ∧ p'.instances = bs.map .known ∧
    List.Forall₂ Respelt as bs

section

variable {atoms atoms' : List Atom} (h : List.Forall₂ Respelt atoms atoms')
  (hnames : ∀ a ∈ atoms, a.name.IsTextOrNull) (hempty : ∀ a ∈ atoms, a.name ≠ .text "")
include h hempty

theorem named_respelt :
    List.Forall₂ Respelt (atoms.filter Atom.isNamed) (atoms'.filter Atom.isNamed) :=
  filter_respelt h fun a ha _ hab => hab.isNamed_eq (hempty a ha)

theorem sharedTokens_respelt : sharedTokens atoms' = sharedTokens atoms := by
  unfold sharedTokens
  rw [map_eq_of_respelt (named_respelt h hempty) fun a b hab => by
    rw [Atom.tokenSet_nameChars, Atom.tokenSet_nameChars, hab.tokens_eq]]

theorem withOneOf_respelt (tokens : List String) :
    List.Forall₂ Respelt (withOneOf atoms tokens) (withOneOf atoms' tokens) :=
  filter_respelt (named_respelt h hempty) fun _ _ _ hab => by rw [hab.tokens_eq]

include hnames

theorem convention_respelt : ∃ found found', namingConvention? atoms = .ok found ∧
    namingConvention? atoms' = .ok found' ∧ Option.Rel SameNaming found found' := by
  have hnamed := (named_respelt h hempty).length_eq
  have hshown := withOneOf_respelt h hempty (sharedTokens atoms)
  have hstyles : commonStyle? ((withOneOf atoms' (sharedTokens atoms)).map Atom.nameChars) =
      commonStyle? ((withOneOf atoms (sharedTokens atoms)).map Atom.nameChars) := by
    unfold commonStyle?
    rw [List.map_map, List.map_map,
      map_eq_of_respelt hshown (f := namingStyle ∘ Atom.nameChars) fun a b => Respelt.style_eq]
  refine ⟨_, _, namingConvention?_eq hnames,
    namingConvention?_eq (isTextOrNull_of_respelt h hnames), ?_⟩
  rw [sharedTokens_respelt h hempty, ← hnamed]
  split
  · exact .none
  · split
    · exact .none
    · dsimp only
      rw [hstyles, ← hshown.length_eq]
      exact .some ⟨rfl, rfl, _, _, rfl, rfl, hshown⟩

end

/-- **Underscores.** A name keeps its style within underscores, save that leading ones turn the style
of classes into that of names that begin with a small letter. In atoms with texts or nothing for names,
underscores around the others do not change how consistent the styles are and which one is most
common; and if no name is empty, they do not change the convention that the names follow. -/
theorem naming_padded (m n : ℕ) (cs : List Char) {atoms atoms' : List Atom}
    (h : List.Forall₂ Respelt atoms atoms') (hnames : ∀ a ∈ atoms, a.name.IsTextOrNull) :
    (namingStyle (padded m n cs) =
      if 0 < m ∧ namingStyle cs = .pascal then .camel else namingStyle cs) ∧
    (∃ styles styles', Quality.stylesOf atoms = .ok styles ∧ Quality.stylesOf atoms' = .ok styles' ∧
      Quality.consistency (Quality.styleCounts styles') =
        Quality.consistency (Quality.styleCounts styles)) ∧
    ((∀ a ∈ atoms, a.name ≠ .text "") → ∃ found found', namingConvention? atoms = .ok found ∧
      namingConvention? atoms' = .ok found' ∧ Option.Rel SameNaming found found') :=
  ⟨Text.namingStyle_padded m n cs, consistency_respelt h hnames, convention_respelt h hnames⟩

/-- Two functions that are made private, and a class whose style is not seen behind an underscore. -/
theorem naming_padded_private :
    let function (name : String) : Atom := .make .functionNode (.text name) none [] []
    namingStyle "UserService".toList = .pascal ∧ namingStyle "_UserService".toList = .camel ∧
    ∃ found found', namingConvention? [function "load_user", function "saveUser"] = .ok found ∧
      namingConvention? [function "_load_user", function "__saveUser__"] = .ok found' ∧
      found.isSome = true ∧ Option.Rel SameNaming found found' := by
  intro function
  have hload : Respelt (function "load_user") (function "_load_user") :=
    .around (a := function "load_user") (s := "load_user") (m := 1) (n := 0) rfl fun _ => by decide
  have hsave : Respelt (function "saveUser") (function "__saveUser__") :=
    .around (a := function "saveUser") (s := "saveUser") (m := 2) (n := 2) rfl fun _ => by decide
  have hnames : ∀ a ∈ [function "load_user", function "saveUser"], a.name.IsTextOrNull := by
    simp [function, Atom.make, Value.IsTextOrNull]
  have hfilled : ∀ a ∈ [function "load_user", function "saveUser"], a.name ≠ .text "" := by
    simp [function, Atom.make]
  obtain ⟨hstyle, -, hconvention⟩ :=
    naming_padded 1 0 "UserService".toList (.cons hload (.cons hsave .nil)) hnames
  obtain ⟨found, found', hfound, hfound', hsame⟩ := hconvention hfilled
  refine ⟨by decide, hstyle, found, found', hfound, hfound', ?_, hsame⟩
  obtain ⟨_, hexact, hshared, -⟩ := namingConvention?_exact hnames
  cases hfound.symm.trans hexact
  exact hshared.2 ⟨"user", by decide⟩

end KnowledgeGraph
