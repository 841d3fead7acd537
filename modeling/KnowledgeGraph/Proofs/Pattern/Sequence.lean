import KnowledgeGraph.Proofs.Number.Whole
import KnowledgeGraph.Proofs.Pattern.Cluster
import KnowledgeGraph.Proofs.Pattern.Nesting
import KnowledgeGraph.Proofs.Pattern.Recognition
import KnowledgeGraph.Proofs.Pattern.Repetition

/-!
# What the patterns in a sequence rest on

By default, each pattern in a sequence of values says of what kind it is, is as certain as a number of
the unit interval says, and rests on elements of the sequence (`Pattern.IsGrounded`). Each detector
keeps to that with patterns of its own kinds (`AreGrounded`), so that no kind is found twice
(`sequencePatterns_grounded`).
-/

namespace KnowledgeGraph

/-! ## Numbers -/

/-- The float that a number is taken as: a finite float as it is, and a whole number as the float
nearest to it, which up to 53 digits is the number itself. -/
inductive Value.IsNumber : Value → Float → Prop
  | float {x : Float} (finite : x.isFinite = true) : IsNumber (.float x) x
  | int {n : ℤ} {x : Float} (finite : x.isFinite = true) (nearest : value x = rounded n)
    (exact : |n| < 2 ^ 53 → value x = n) : IsNumber (.int n) x

theorem Value.isNumber_of_finite? {v : Value} {x : Float} (h : v.finite? = some x) :
    v.IsNumber x := by
  cases v with
  | list _ | map _ => cases h
  | scalar s =>
    cases s with
    | null | bool _ | nan _ | text _ => cases h
    | int n =>
      have hread : (floatOfInt n).toOption = some x := h
      cases hn : floatOfInt n with
      | error f =>
        rw [hn] at hread
        cases hread
      | ok y =>
        rw [hn] at hread
        cases hread
        obtain ⟨hfinite, hnearest⟩ := floatOfInt_nearest hn
        exact .int hfinite hnearest fun hlong => hnearest.trans (rounded_intCast hlong)
    | float y =>
      unfold finite? at h
      dsimp only at h
      split at h
      · rename_i hfinite
        cases h
        exact .float hfinite
      · cases h

/-- A progression rests on the first ten numbers, where there are three or more and nothing else. -/
structure IsProgression (items : List Value) (p : Pattern) : Prop where
  three : 3 ≤ items.length
  instances : ∃ numbers, List.Forall₂ Value.IsNumber items numbers ∧
    p.instances = (numbers.take 10).map fun x => .raw (.float x)

theorem forall₂_isNumber {items : List Value} {elements : List Item} {numbers : List Float}
    (htaken : List.Forall₂ TakenAs items elements) (h : numbersOf? elements = some numbers) :
    List.Forall₂ Value.IsNumber items numbers := by
  unfold numbersOf? at h
  split at h
  · cases h
  · rename_i hfew
    have hread := forall₂_of_mapM_eq_some h
    clear h hfew
    induction htaken generalizing numbers with
    | nil =>
      cases hread
      exact .nil
    | cons hv _ ih =>
      obtain _ | ⟨hx, hread⟩ := hread
      refine .cons ?_ (ih hread)
      cases hv with
      | atom _ _ => cases hx
      | malformed _ _ _ => cases hx
      | plain _ => exact Value.isNumber_of_finite? hx

/-! ## Patterns that rest on elements -/

/-- What tells the patterns in a sequence apart: the kind, and for a cluster the type of its atoms. -/
def Pattern.mark (p : Pattern) : String × Option Value :=
  match p.shape with
  | .typeCluster type _ => (p.shape.kind, some type)
  | shape => (shape.kind, none)

/-- What a pattern in a sequence rests on. -/
def Pattern.RestsOn (items : List Value) (elements : List Item) (p : Pattern) : Prop :=
  match p.shape with
  | .arithmetic .. | .geometric .. => IsProgression items p
  | .repetition .. | .typeCluster .. | .naming .. =>
    p.instances.Sublist elements ∧ 2 ≤ p.instances.length
  | .hierarchy depth =>
    p.instances.Sublist elements ∧ 1 ≤ p.instances.length ∧
      3 ≤ depth ∧ IsGreatest (nestings elements) depth
  | _ => False

/-- A pattern that says of what kind and of what type it is, with a number of the unit interval for a
confidence, and that rests on what is there. -/
structure Pattern.IsGrounded (items : List Value) (elements : List Item) (p : Pattern) : Prop where
  described : ∃ description, p.shape.description Slot.plain = .ok description ∧
    description.field "type" = .ok (.text p.shape.kind)
  typed : ∃ t ∈ PatternType.all, t ≠ .custom ∧ p.shape.tag = .ok (.text t.label)
  confidence : InUnit p.confidence
  evidence : p.RestsOn items elements

/-- Patterns that rest on what is there, told apart by some marks in this order. -/
structure AreGrounded (items : List Value) (elements : List Item)
    (marks : List (String × Option Value)) (found : List Pattern) : Prop where
  grounded : ∀ p ∈ found, p.IsGrounded items elements
  marks : (found.map Pattern.mark).Sublist marks

section

variable {items : List Value} {elements : List Item} {marks marks' : List (String × Option Value)}

theorem areGrounded_nil : AreGrounded items elements marks [] :=
  ⟨List.forall_mem_nil _, List.nil_sublist _⟩

theorem areGrounded_toList {found : Option Pattern} {mark : String × Option Value}
    (h : ∀ p ∈ found, p.IsGrounded items elements ∧ p.mark = mark) :
    AreGrounded items elements [mark] found.toList := by
  cases found with
  | none => exact areGrounded_nil
  | some p =>
    obtain ⟨hgrounded, rfl⟩ := h p rfl
    exact ⟨List.forall_mem_singleton.2 hgrounded, .refl _⟩

theorem AreGrounded.append {found found' : List Pattern}
    (h : AreGrounded items elements marks found) (h' : AreGrounded items elements marks' found') :
    AreGrounded items elements (marks ++ marks') (found ++ found') := by
  refine ⟨List.forall_mem_append.2 ⟨h.grounded, h'.grounded⟩, ?_⟩
  rw [List.map_append]
  exact h.marks.append h'.marks

theorem PatternType.mem_all (t : PatternType) : t ∈ PatternType.all := by
  cases t <;> decide

/-- What rests on something has a type, which is not the one for all others. -/
theorem Pattern.RestsOn.isOwn {p : Pattern} (h : p.RestsOn items elements) :
    p.shape.IsOwn ∧ p.shape.patternType ≠ .custom := by
  obtain ⟨shape, confidence, instances⟩ := p
  cases shape with
  | code _ _ _ _ _ | rhythm _ _ _ _ _ | flow _ _ _ | usage _ _ _ _ | described _ _ => exact h.elim
  | _ => exact ⟨trivial, nofun⟩

theorem isGrounded_of {p : Pattern} (confidence : InUnit p.confidence)
    (described : ∃ description, p.shape.description Slot.plain = .ok description ∧
      description.field "type" = .ok (.text p.shape.kind))
    (evidence : p.RestsOn items elements) : p.IsGrounded items elements :=
  ⟨described, ⟨_, PatternType.mem_all _, evidence.isOwn.2, evidence.isOwn.1.tag⟩, confidence,
    evidence⟩

/-! ## Progressions -/

section

variable {numbers : List Float} {p : Pattern}

theorem arithmetic?_eq_some (h : arithmetic? {} numbers = .ok (some p)) :
    ∃ difference start length confidence, p = .of (.arithmetic difference start length) confidence
      ((numbers.take 10).map fun x => .raw (.float x)) := by
  have hlimit : ({} : DetectionConfig).sequenceWindow.limit? = .ok (some 10) := rfl
  have hwindow : takeUpTo (some 10) numbers = numbers.take 10 := rfl
  unfold arithmetic? at h
  rw [hlimit, Except.ok_bind, hwindow] at h
  dsimp only at h
  split at h
  · split at h
    · obtain ⟨confidence, -, h⟩ := Except.bind_eq_ok.1 h
      cases h
      exact ⟨_, _, _, confidence, rfl⟩
    · cases h
  · cases h

theorem geometric?_eq_some (h : geometric? {} numbers = .ok (some p)) :
    ∃ ratio start length confidence, p = .of (.geometric ratio start length) confidence
      ((numbers.take 10).map fun x => .raw (.float x)) := by
  have hlimit : ({} : DetectionConfig).sequenceWindow.limit? = .ok (some 10) := rfl
  have hwindow : takeUpTo (some 10) numbers = numbers.take 10 := rfl
  unfold geometric? at h
  rw [hlimit, Except.ok_bind, hwindow] at h
  dsimp only at h
  split at h
  · cases h
  · split at h
    · obtain ⟨tolerance, -, h⟩ := Except.bind_eq_ok.1 h
      split at h
      · obtain ⟨confidence, -, h⟩ := Except.bind_eq_ok.1 h
        cases h
        exact ⟨_, _, _, confidence, rfl⟩
      · cases h
    · cases h

end

theorem progressions_grounded {found : List Pattern}
    (htaken : List.Forall₂ TakenAs items elements) (h : progressions {} elements = .ok found) :
    AreGrounded items elements [("arithmetic-sequence", none), ("geometric-sequence", none)]
      found := by
  unfold progressions at h
  split at h
  · cases h
    exact areGrounded_nil
  · rename_i numbers hread
    have hnumbers := forall₂_isNumber htaken hread
    have hthree : 3 ≤ items.length := by
      rw [hnumbers.length_eq]
      exact length_of_numbersOf? hread
    obtain ⟨arithmetic, harithmetic, h⟩ := Except.bind_eq_ok.1 h
    obtain ⟨geometric, hgeometric, h⟩ := Except.bind_eq_ok.1 h
    cases h
    refine AreGrounded.append (areGrounded_toList fun p hp => ?_) (areGrounded_toList fun p hp => ?_)
    · obtain rfl := Option.mem_def.1 hp
      obtain ⟨_, _, _, _, rfl⟩ := arithmetic?_eq_some harithmetic
      refine ⟨isGrounded_of (inUnit_confidenceOf _) ⟨_, rfl, rfl⟩ ?_, rfl⟩
      exact ⟨hthree, numbers, hnumbers, rfl⟩
    · obtain rfl := Option.mem_def.1 hp
      obtain ⟨_, _, _, _, rfl⟩ := geometric?_eq_some hgeometric
      refine ⟨isGrounded_of (inUnit_confidenceOf _) ⟨_, rfl, rfl⟩ ?_, rfl⟩
      exact ⟨hthree, numbers, hnumbers, rfl⟩

/-! ## Repetition -/

theorem writeGroups_returns {groups : List (Item × ℕ)}
    (h : ∀ g ∈ groups, Except.Returns g.1.plain) :
    Except.Returns (Shape.writeGroups Slot.plain groups) := by
  induction groups with
  | nil => exact Except.returns_ok []
  | cons g groups ih =>
    rw [List.forall_mem_cons] at h
    obtain ⟨v, hv⟩ := h.1
    obtain ⟨vs, hvs⟩ := ih h.2
    obtain ⟨item, count⟩ := g
    exact ⟨_, by rw [Shape.writeGroups, hv, Except.ok_bind, hvs]; rfl⟩

theorem repetition?_grounded {found : Option Pattern}
    (hplain : ∀ item ∈ elements, Slot.IsPlain item) (h : repetition? elements = .ok found) :
    AreGrounded items elements [("repetition", none)] found.toList := by
  have hwritable : AreWritable elements :=
    (repetition?_returns_iff fun item hitem => (hplain item hitem).exists_isJson).1 ⟨found, h⟩
  obtain ⟨ranked, hranked, heq⟩ := repetition?_eq hplain hwritable
  refine areGrounded_toList fun p hp => ?_
  obtain rfl := Option.mem_def.1 hp
  rw [heq] at h
  split at h
  · cases h
  · rename_i hsome
    cases h
    have hwritten : ∀ g ∈ (severals elements ranked).map fun a => (a, (ofForm elements a).length),
        Except.Returns g.1.plain := by
      refine List.forall_mem_map.2 fun a ha => ?_
      obtain ⟨v, hv, -⟩ := hplain a (mem_of_mem_firsts ((mem_severals hranked).1 ha).1)
      exact ⟨v, hv⟩
    have htwo : 2 ≤ (repeatedItems elements).length := by
      obtain ⟨a, ha⟩ := List.exists_mem_of_ne_nil _ hsome
      rw [← sum_severals hranked hplain]
      exact ((mem_severals hranked).1 ha).2.trans (List.le_sum_of_mem (List.mem_map_of_mem ha))
    obtain ⟨vs, hvs⟩ := writeGroups_returns hwritten
    refine ⟨isGrounded_of (inUnit_confidenceOf _) ?_ ⟨List.filter_sublist, htwo⟩, rfl⟩
    unfold Shape.description
    dsimp only [Pattern.of]
    rw [hvs]
    exact ⟨_, rfl, rfl⟩

/-! ## Nesting -/

theorem hierarchy?_grounded {found : Option Pattern} (h : hierarchy? {} elements = .ok found) :
    AreGrounded items elements [("hierarchical", none)] found.toList := by
  obtain ⟨_, heq, -, hexact⟩ := hierarchy?_exact elements
  cases heq.symm.trans h
  refine areGrounded_toList fun p hp => ?_
  obtain ⟨depth, hp⟩ := hexact p hp
  obtain ⟨shape, confidence, instances⟩ := p
  obtain rfl := hp.shape
  obtain rfl := hp.instances
  refine ⟨isGrounded_of hp.confidence ⟨_, rfl, rfl⟩ ?_, rfl⟩
  exact ⟨List.filter_sublist, List.length_pos_iff.2 hp.nonempty, hp.three, hp.longest⟩

/-! ## Clusters -/

theorem knowns_sublist (elements : List Item) :
    ((Slot.knowns elements).map .known).Sublist elements := by
  induction elements with
  | nil => exact .refl _
  | cons item elements ih =>
    cases item with
    | known a => exact ih.cons_cons _
    | raw v => exact ih.cons _

theorem typeClusters_grounded {found : List Pattern}
    (htypes : ∀ a ∈ Slot.knowns elements, ∃ s, a.type = .text s)
    (h : typeClusters (Slot.knowns elements) = .ok found) : ∃ types : List Value, types.Nodup ∧
      AreGrounded items elements (types.map fun type => ("type-cluster", some type)) found := by
  obtain ⟨_, heq, hclusters⟩ := typeClusters_exact htypes
  cases heq.symm.trans h
  let types := ((Slot.knowns elements).map (·.type)).eraseDups.filter
    fun type => 2 ≤ (ofType (Slot.knowns elements) type).length
  have hmarks : found.map Pattern.mark = types.map fun type => ("type-cluster", some type) := by
    rw [← List.forall₂_eq_eq_eq, List.forall₂_map_left_iff, List.forall₂_map_right_iff]
    refine hclusters.flip.imp fun p type hp => ?_
    unfold Pattern.mark
    rw [hp.shape]
    rfl
  refine ⟨types, (nodup_eraseDups _).filter _, fun p hp => ?_, hmarks ▸ .refl _⟩
  obtain ⟨type, htype, hp⟩ := Except.exists_of_forall₂ hclusters hp
  have htwo := of_decide_eq_true (List.mem_filter.1 htype).2
  obtain ⟨shape, confidence, instances⟩ := p
  obtain rfl := hp.shape
  obtain rfl := hp.instances
  refine isGrounded_of hp.confidence ⟨_, hp.description, rfl⟩ ⟨?_, ?_⟩
  · exact (List.filter_sublist.map _).trans (knowns_sublist elements)
  · rwa [List.length_map]

theorem namingConvention?_named (atoms : List Atom) :
    namingConvention? (atoms.filter Atom.isNamed) = namingConvention? atoms := by
  unfold namingConvention?
  simp only [List.filter_filter, Bool.and_self]

theorem namingConvention?_grounded {found : Option Pattern}
    (hnames : HaveTextNames (Slot.knowns elements))
    (h : namingConvention? (Slot.knowns elements) = .ok found) :
    AreGrounded items elements [("naming-convention", none)] found.toList := by
  refine areGrounded_toList fun p hp => ?_
  obtain rfl := Option.mem_def.1 hp
  have htwo : 2 ≤ ((Slot.knowns elements).filter Atom.isNamed).length := by
    by_contra hfew
    unfold namingConvention? at h
    dsimp only at h
    rw [if_pos (by omega)] at h
    cases h
  have htexts : ∀ a ∈ (Slot.knowns elements).filter Atom.isNamed, a.name.IsTextOrNull := by
    intro a ha
    obtain ⟨ha, hnamed⟩ := List.mem_filter.1 ha
    exact .inr (hnames htwo a ha hnamed)
  rw [← namingConvention?_named] at h
  obtain ⟨_, heq, hshared, hexact⟩ := namingConvention?_exact htexts
  cases heq.symm.trans h
  obtain ⟨tokens, style, coverage, hp⟩ := hexact p rfl
  obtain ⟨t, ht⟩ := hshared.1 rfl
  have hshown : 2 ≤ p.instances.length := by
    rw [hp.instances, List.length_map]
    have hmem := (hp.shared t).2 ht
    rw [← withToken_named htexts] at ht
    refine ht.trans (List.Sublist.length_le (List.monotone_filter_right _ fun a ha => ?_))
    exact List.any_eq_true.2 ⟨t, of_decide_eq_true ha, decide_eq_true hmem⟩
  have hsublist : p.instances.Sublist elements := by
    rw [hp.instances]
    refine List.Sublist.trans (List.Sublist.map _ ?_) (knowns_sublist elements)
    exact (List.filter_sublist.trans List.filter_sublist).trans List.filter_sublist
  obtain ⟨shape, confidence, instances⟩ := p
  obtain rfl := hp.shape
  exact ⟨isGrounded_of hp.confidence ⟨_, hp.description, rfl⟩ ⟨hsublist, hshown⟩, rfl⟩

theorem clusters_grounded {found : List Pattern}
    (htypes : ∀ a ∈ Slot.knowns elements, ∃ s, a.type = .text s)
    (hnames : HaveTextNames (Slot.knowns elements)) (h : clusters elements = .ok found) :
    ∃ types : List Value, types.Nodup ∧ AreGrounded items elements
      (types.map (fun type => ("type-cluster", some type)) ++ [("naming-convention", none)])
      found := by
  unfold clusters at h
  split at h
  · cases h
    exact ⟨[], .nil, areGrounded_nil⟩
  · obtain ⟨types, htypeClusters, h⟩ := Except.bind_eq_ok.1 h
    obtain ⟨naming, hnaming, h⟩ := Except.bind_eq_ok.1 h
    cases h
    obtain ⟨types, hnodup, hgrounded⟩ := typeClusters_grounded htypes htypeClusters
    exact ⟨types, hnodup, hgrounded.append (namingConvention?_grounded hnames hnaming)⟩

/-! ## Sequences -/

/-- What is called a hierarchy has a chain of three containers or more. -/
theorem Pattern.RestsOn.exists_nesting {p : Pattern} (h : p.RestsOn items elements)
    (hkind : p.shape.kind = "hierarchical") : ∃ n ∈ nestings elements, 3 ≤ n := by
  obtain ⟨shape, confidence, instances⟩ := p
  cases shape with
  | code _ _ _ _ _ | rhythm _ _ _ _ _ | flow _ _ _ | usage _ _ _ _ | described _ _ => exact h.elim
  | hierarchy depth =>
    obtain ⟨-, -, hthree, hgreatest⟩ := h
    exact ⟨depth, hgreatest.1, hthree⟩
  | arithmetic _ _ _ | geometric _ _ _ | repetition _ _ | typeCluster _ _ | naming _ _ _ =>
    simp [Shape.kind] at hkind

theorem TakenAs.isPlain {v : Value} {item : Item} (h : TakenAs v item) (hv : v.WellKeyed) :
    Slot.IsPlain item := by
  cases h with
  | atom _ read => exact .known hv read
  | malformed _ _ _ | plain _ => exact .raw hv

/-- The marks of all kinds, and of different types, are different. -/
theorem nodup_marks {types : List Value} (h : types.Nodup) :
    ([("arithmetic-sequence", none), ("geometric-sequence", none)] ++ [("repetition", none)] ++
      [("hierarchical", none)] ++ (types.map (fun type => ("type-cluster", some type)) ++
        [("naming-convention", none)])).Nodup := by
  have hclusters : (types.map fun type => ("type-cluster", some type)).Nodup :=
    h.map fun _ _ heq => by simpa using heq
  simp [List.nodup_append, hclusters]

/-- The patterns in a sequence by default, kind by kind; without elements there are none. -/
theorem sequencePatterns_default {taken : List Item} (htaken : taken.mapM asAtom = .ok elements) :
    sequencePatterns {} taken = (do
      let progressions ← progressions {} elements
      let repetition ← repetition? elements
      let hierarchy ← hierarchy? {} elements
      let clusters ← clusters elements
      return progressions ++ repetition.toList ++ hierarchy.toList ++ clusters) := by
  by_cases hnone : elements = []
  · have hflat : hierarchy? {} [] = .ok none := by
      rw [hierarchy?_default, if_pos (by rw [Atom.depthOfMembers]; decide)]
    unfold sequencePatterns
    rw [htaken, Except.ok_bind, hnone, hflat]
    rfl
  · exact sequencePatterns_eq htaken hnone

/-- **What patterns rest on.** By default the patterns in a sequence of values are described with
their kinds, have types and numbers of the unit interval for confidences, and rest on elements of the
sequence. They are of different kinds, or are clusters of different types. A hierarchy is among them
if there is a chain of three containers or more, the whole sequence included. -/
theorem sequencePatterns_grounded {found : List Pattern} (hitems : ∀ v ∈ items, v.WellKeyed)
    (h : sequencePatterns {} (items.map .raw) = .ok found) :
    ∃ elements, List.Forall₂ TakenAs items elements ∧
      (∀ p ∈ found, p.IsGrounded items elements) ∧ (found.map Pattern.mark).Nodup ∧
      ((∃ p ∈ found, p.shape.kind = "hierarchical") ↔ ∃ n ∈ nestings elements, 3 ≤ n) := by
  obtain ⟨elements, hread, -⟩ := Except.bind_eq_ok.1 h
  have htaken := mapM_asAtom_raw.1 hread
  have hplain := TakenAs.forall_mem TakenAs.isPlain htaken hitems
  have hjson := TakenAs.forall_mem TakenAs.isJson htaken fun v hv => (hitems v hv).isJson
  have hnames := (conditions_of_sequencePatterns hread hjson ⟨found, h⟩).1
  have htypes := forall_type_of_isJson hjson
  rw [sequencePatterns_default hread] at h
  obtain ⟨progressions, hprogressions, h⟩ := Except.bind_eq_ok.1 h
  obtain ⟨repetition, hrepetition, h⟩ := Except.bind_eq_ok.1 h
  obtain ⟨hierarchy, hhierarchy, h⟩ := Except.bind_eq_ok.1 h
  obtain ⟨clusters, hclusters, h⟩ := Except.bind_eq_ok.1 h
  cases h
  obtain ⟨types, hnodup, hclusters⟩ := clusters_grounded htypes hnames hclusters
  have hgrounded := (((progressions_grounded htaken hprogressions).append
    (repetition?_grounded hplain hrepetition)).append
      (hierarchy?_grounded hhierarchy)).append hclusters
  refine ⟨elements, htaken, hgrounded.grounded, hgrounded.marks.nodup ?_, ?_, ?_⟩
  · exact nodup_marks hnodup
  · rintro ⟨p, hp, hkind⟩
    exact (hgrounded.grounded p hp).evidence.exists_nesting hkind
  · intro hdeep
    obtain ⟨_, heq, hsome, hexact⟩ := hierarchy?_exact elements
    cases heq.symm.trans hhierarchy
    obtain ⟨p, rfl⟩ := Option.isSome_iff_exists.1 (hsome.2 hdeep)
    obtain ⟨depth, hp⟩ := hexact p rfl
    refine ⟨p, by simp, ?_⟩
    rw [hp.shape]
    rfl

/-- A record that is taken as a link to an atom, and a list in a list. -/
theorem sequencePatterns_grounded_linked :
    let record : Value := .record [("type", .text "L"),
      ("outgoing", .list [.record [("type", .text "T")]])]
    let target : Atom := ⟨.text "T", .null, .null, .empty, .empty, [], [], []⟩
    let link : Atom := ⟨.text "L", .null, .null, .empty, .empty, [.known target], [], []⟩
    let nested : Value := .list [.list []]
    ∃ found, sequencePatterns {} [.raw record, .raw nested] = .ok found ∧
      ∃ p ∈ found, p.shape.kind = "hierarchical" ∧
        p.IsGrounded [record, nested] [.known link, .raw nested] := by
  intro record target link nested
  have hitems : ∀ v ∈ [record, nested], v.WellKeyed := by
    have hatom : (Value.record [("type", .text "T")]).WellKeyed :=
      .record (by decide) (by simp [Value.WellKeyed.scalar])
    have hout : (Value.list [.record [("type", .text "T")]]).WellKeyed :=
      .list (List.forall_mem_singleton.2 hatom)
    have hrecord : record.WellKeyed := .record (by decide) (by simp [hout, Value.WellKeyed.scalar])
    have hnested : nested.WellKeyed := .list (List.forall_mem_singleton.2 (.list nofun))
    simp [hrecord, hnested]
  have htaken : List.Forall₂ TakenAs [record, nested] [.known link, .raw nested] :=
    .cons (.atom (by decide) rfl) (.cons (.plain nofun) .nil)
  have hjson := TakenAs.forall_mem TakenAs.isJson htaken fun v hv => (hitems v hv).isJson
  have hnames : HaveTextNames (Slot.knowns [.known link, .raw nested]) :=
    fun htwo => absurd htwo (by decide)
  have hwritable : AreWritable [.known link, .raw nested] :=
    fun _ => TakenAs.forall_mem TakenAs.isWritable htaken (by decide)
  obtain ⟨found, hfound, -⟩ := sequencePatterns_finds (mapM_asAtom_raw.2 htaken) hjson
    DetectionConfig.isUsable_default hnames hwritable
  obtain ⟨elements, htaken', hgrounded, -, hreported⟩ := sequencePatterns_grounded hitems hfound
  have hread := (mapM_asAtom_raw.2 htaken').symm.trans (mapM_asAtom_raw.2 htaken)
  obtain rfl := Except.ok.inj hread
  have hchain : IsNest [.known link, .raw nested] [.known link, .known target] :=
    .cons (by simp) trivial (.cons (by simp [Slot.held, link]) trivial (.nil _))
  obtain ⟨p, hp, hkind⟩ := hreported.2 ⟨3, ⟨_, hchain, rfl⟩, le_rfl⟩
  exact ⟨found, hfound, p, hp, hkind, hgrounded p hp⟩

end

end KnowledgeGraph
