import KnowledgeGraph.Pattern.Recognition
import KnowledgeGraph.Proofs.Atom.Json
import KnowledgeGraph.Proofs.Value.Writable

/-!
# What detectors need

Every detector comes out well where the settings are numbers (`DetectionConfig.IsUsable`), and each
pattern it finds names its type. There are two exceptions. The search for a naming convention stops at
a name that is no text, if there are two names or more, and what puts elements or actions into text
stops at a number with too many digits (`sequencePatterns_finds`, `conditions_of_sequencePatterns`,
`behaviorPatterns_finds`).
-/

namespace KnowledgeGraph

/-! ## Settings -/

/-- The settings are numbers, and progressions are looked for in two elements at least. -/
structure DetectionConfig.IsUsable (config : DetectionConfig) : Prop where
  densityFloor : Except.Returns config.densityFloor.operand
  densitySlope : Except.Returns config.densitySlope.operand
  sequenceWindow :
    Except.Gives (fun limit => ∀ n, limit = some n → 2 ≤ n) config.sequenceWindow.limit?
  ratioTolerance : Except.Returns config.ratioTolerance.quantity
  hierarchyDepth : Except.Returns config.hierarchyDepth.quantity
  arithmeticConfidence : Except.Returns config.arithmeticConfidence.toFloat
  geometricConfidence : Except.Returns config.geometricConfidence.toFloat
  usageConfidence : Except.Returns config.usageConfidence.toFloat

theorem DetectionConfig.isUsable_default : ({} : DetectionConfig).IsUsable where
  densityFloor := ⟨_, rfl⟩
  densitySlope := ⟨_, rfl⟩
  sequenceWindow := by
    refine ⟨some 10, rfl, fun n hn => ?_⟩
    cases hn
    decide
  ratioTolerance := ⟨_, rfl⟩
  hierarchyDepth := ⟨_, rfl⟩
  arithmeticConfidence := ⟨_, rfl⟩
  geometricConfidence := ⟨_, rfl⟩
  usageConfidence := ⟨_, rfl⟩

/-! ## Patterns with their types -/

/-- The metadata of each pattern name a pattern type. -/
def AllTyped (ps : List Pattern) : Prop := ∀ p ∈ ps, ∃ t, p.shape.tag = .ok (.text t)

/-- The detector comes out well, and finds patterns with their types. -/
def Finds (x : Except Fault (List Pattern)) : Prop := Except.Gives AllTyped x

/-- The detector comes out well, and finds a pattern with its type or none. -/
def FindsOne (x : Except Fault (Option Pattern)) : Prop :=
  Except.Gives (fun found => AllTyped found.toList) x

theorem allTyped_nil : AllTyped [] := List.forall_mem_nil _

theorem AllTyped.append {ps qs : List Pattern} (hp : AllTyped ps) (hq : AllTyped qs) :
    AllTyped (ps ++ qs) := List.forall_mem_append.2 ⟨hp, hq⟩

/-- What is found here, as against what is described elsewhere. -/
def Shape.IsOwn : Shape → Prop
  | .described _ _ => False
  | _ => True

theorem Shape.IsOwn.tag {shape : Shape} (h : shape.IsOwn) :
    shape.tag = .ok (.text shape.patternType.label) := by
  cases shape with
  | described _ _ => exact h.elim
  | _ => rfl

theorem allTyped_of {shape : Shape} (h : shape.IsOwn) (confidence : Float) (instances : List Item) :
    AllTyped [.of shape confidence instances] :=
  List.forall_mem_singleton.2 ⟨_, h.tag⟩

theorem findsOne_none : FindsOne (.ok none) := Except.gives_ok allTyped_nil

theorem findsOne_some {shape : Shape} (h : shape.IsOwn) {confidence : Float}
    {instances : List Item} : FindsOne (.ok (some (.of shape confidence instances))) :=
  Except.gives_ok (allTyped_of h confidence instances)

/-! ## Elements as numbers -/

theorem forall₂_of_mapM_eq_some {α β : Type} {f : α → Option β} {xs : List α} {ys : List β}
    (h : xs.mapM f = some ys) : List.Forall₂ (fun x y => f x = some y) xs ys := by
  induction xs generalizing ys with
  | nil =>
    cases h
    exact .nil
  | cons x xs ih =>
    rw [List.mapM_cons] at h
    obtain ⟨y, hy, h⟩ := Option.bind_eq_some_iff.1 h
    obtain ⟨zs, hzs, h⟩ := Option.bind_eq_some_iff.1 h
    cases h
    exact .cons hy (ih hzs)

theorem length_of_numbersOf? {items : List Item} {numbers : List Float}
    (h : numbersOf? items = some numbers) : 3 ≤ numbers.length := by
  unfold numbersOf? at h
  split at h
  · cases h
  · rw [← (forall₂_of_mapM_eq_some h).length_eq]
    omega

/-! ## Repetition -/

/-- An element with texts for keys: a value with texts for keys, or an atom that holds such values at
every depth. -/
def Slot.IsJson : Item → Prop
  | .known a => a.Deep Atom.members Atom.IsJson
  | .raw v => v.IsJson

theorem Slot.IsJson.exists_plain {item : Item} (h : item.IsJson) :
    ∃ v, item.plain = .ok v ∧ v.IsJson := by
  cases item with
  | known a => exact Atom.exists_toRecord_isJson h
  | raw v => exact ⟨v, rfl, h⟩

/-- Whether no number in what an element is written as has too many digits. -/
def Slot.isWritable (item : Item) : Bool := item.plain.toOption.any Value.isWritable

theorem Slot.isWritable_raw (v : Value) : Slot.isWritable (.raw v) = v.isWritable := rfl

/-- The text that an element is compared by. -/
def Slot.key (item : Item) : String := Json.writeLine (item.plain.toOption.getD .null).sorted

/-- **Keys of elements.** An element with texts for keys is compared by the text of what it is written
as with its keys sorted, unless there is a number with too many digits in it. -/
theorem elementKey_eq {item : Item} {v : Value} (hv : item.plain = .ok v) (h : v.IsJson) :
    elementKey item = if item.isWritable then .ok item.key else .error .tooManyDigits := by
  have hcanonical := Value.canonical_eq h
  have hwritable : item.isWritable = v.isWritable := by
    unfold Slot.isWritable
    rw [hv]
    rfl
  have hkey : item.key = Json.writeLine v.sorted := by
    unfold Slot.key
    rw [hv]
    rfl
  rw [hwritable, hkey]
  cases item with
  | known a =>
    have hrecord : a.toRecord = .ok v := hv
    unfold elementKey
    dsimp only
    rw [hrecord, Except.ok_bind, hcanonical]
    split <;> rfl
  | raw w =>
    obtain rfl : w = v := Except.ok.inj hv
    unfold elementKey Value.toQuoted Value.ifWritable
    dsimp only
    rw [hcanonical]
    cases w.isWritable <;> rfl

/-- Where there are two elements or more, all of them can be written. -/
def AreWritable (items : List Item) : Prop :=
  2 ≤ items.length → ∀ item ∈ items, item.isWritable = true

section

variable {items : List Item} (hjson : ∀ item ∈ items, ∃ v, item.plain = .ok v ∧ v.IsJson)
include hjson

theorem mapM_elementKey : items.mapM elementKey =
    if items.all Slot.isWritable then .ok (items.map Slot.key) else .error .tooManyDigits := by
  refine Except.mapM_of_ite fun item hitem => ?_
  obtain ⟨v, hv, hvalue⟩ := hjson item hitem
  exact elementKey_eq hv hvalue

theorem repetition?_findsOne (h : AreWritable items) : FindsOne (repetition? items) := by
  unfold repetition?
  split
  · exact findsOne_none
  · rename_i htwo
    rw [mapM_elementKey hjson, if_pos (List.all_eq_true.2 (h (Nat.not_lt.1 htwo))), Except.ok_bind]
    dsimp only
    split
    · exact findsOne_none
    · exact findsOne_some (by trivial)

/-- A number with too many digits stops the search, if there are two elements or more. -/
theorem repetition?_tooManyDigits (h : ¬ AreWritable items) :
    repetition? items = .error .tooManyDigits := by
  unfold AreWritable at h
  rw [Classical.not_imp, ← List.all_eq_true] at h
  unfold repetition?
  rw [if_neg (Nat.not_lt.2 h.1), mapM_elementKey hjson, if_neg h.2]
  rfl

theorem repetition?_returns_iff : Except.Returns (repetition? items) ↔ AreWritable items := by
  refine ⟨fun h => ?_, fun h => (repetition?_findsOne hjson h).returns⟩
  by_contra hnot
  rw [repetition?_tooManyDigits hjson hnot] at h
  exact Except.not_returns_error _ h

end

/-! ## Clusters -/

theorem groupByType_returns {atoms : List Atom} (h : ∀ a ∈ atoms, ∃ s, a.type = .text s) :
    ∀ groups, Except.Returns (groupByType atoms groups) := by
  induction atoms with
  | nil => exact fun groups => Except.returns_ok groups
  | cons a rest ih =>
    rw [List.forall_mem_cons] at h
    obtain ⟨⟨s, hs⟩, hrest⟩ := h
    intro groups
    unfold groupByType
    rw [hs]
    exact ih hrest _

theorem typeClusters_finds {atoms : List Atom} (h : ∀ a ∈ atoms, ∃ s, a.type = .text s) :
    Finds (typeClusters atoms) := by
  unfold typeClusters
  refine (groupByType_returns h []).bind fun groups => Except.gives_ok fun p hp => ?_
  obtain ⟨group, -, rfl⟩ := List.mem_map.1 hp
  exact ⟨_, rfl⟩

/-- Where two atoms or more are named, all names are texts. -/
def HaveTextNames (atoms : List Atom) : Prop :=
  2 ≤ (atoms.filter Atom.isNamed).length → ∀ a ∈ atoms, a.isNamed = true → ∃ s, a.name = .text s

theorem Atom.nameText_returns_iff {a : Atom} :
    Except.Returns a.nameText ↔ ∃ s, a.name = .text s := by
  unfold nameText
  constructor
  · rintro ⟨cs, h⟩
    split at h
    · rename_i s hname
      exact ⟨s, hname⟩
    · cases h
  · rintro ⟨s, hname⟩
    rw [hname]
    exact Except.returns_ok _

theorem namingConvention?_findsOne {atoms : List Atom} (h : HaveTextNames atoms) :
    FindsOne (namingConvention? atoms) := by
  unfold namingConvention?
  dsimp only
  split
  · exact findsOne_none
  · rename_i htwo
    have hnames : Except.Returns ((atoms.filter Atom.isNamed).mapM Atom.nameText) := by
      refine Except.returns_mapM fun a ha => Atom.nameText_returns_iff.2 ?_
      obtain ⟨ha, hnamed⟩ := List.mem_filter.1 ha
      exact h (Nat.le_of_not_lt htwo) a ha hnamed
    refine hnames.bind fun names => ?_
    split
    · exact findsOne_none
    · exact findsOne_some (by trivial)

theorem haveTextNames_of_returns {atoms : List Atom}
    (h : Except.Returns (namingConvention? atoms)) : HaveTextNames atoms := by
  intro htwo a ha hnamed
  unfold namingConvention? at h
  dsimp only at h
  rw [if_neg (Nat.not_lt.2 htwo)] at h
  obtain ⟨names, hnames, -⟩ := h.of_bind
  exact Atom.nameText_returns_iff.1
    (Except.exists_of_mapM_eq_ok hnames (List.mem_filter.2 ⟨ha, hnamed⟩))

/-! ## Actions -/

/-- The interactions of a behaviour record with a usable time, by rising times. -/
def interactionsIn (record : Entries) : List Interaction :=
  interactionsOf ((Entries.get? record "interactions").getD .null)

/-- The actions in a behaviour record, in order. -/
def actionsIn (record : Entries) : List Value := (interactionsIn record).filterMap Interaction.action?

/-- Where there are two interactions or more, all actions can be written. -/
def HaveWritableActions (record : Entries) : Prop :=
  2 ≤ (interactionsIn record).length → ∀ action ∈ actionsIn record, action.isWritable = true

/-- The actions of a record without numbers of too many digits can be written. -/
theorem haveWritableActions_of_isWritable {record : Entries}
    (h : (Value.map record).isWritable = true) : HaveWritableActions record := by
  have hwritable := Value.isHereditary_isWritable
  intro _ action haction
  obtain ⟨i, hi, haction⟩ := List.mem_filterMap.1 haction
  obtain ⟨items, hitems, hi⟩ : ∃ items,
      (Entries.get? record "interactions").getD .null = .list items ∧
        i ∈ items.filterMap Interaction.ofValue? := by
    unfold interactionsIn interactionsOf at hi
    split at hi
    · exact ⟨_, ‹_›, List.mem_mergeSort.1 hi⟩
    · cases hi
  obtain ⟨item, hitem, hread⟩ := List.mem_filterMap.1 hi
  have hlist := hwritable.getD h "interactions"
  rw [hitems] at hlist
  refine @Value.IsHereditary.get? _ hwritable i.record ?_ _ _ haction
  have hrecord : item = .map i.record := by
    cases item with
    | scalar _ | list _ => cases hread
    | map es =>
      unfold Interaction.ofValue? at hread
      dsimp only at hread
      split at hread
      · obtain ⟨x, -, rfl⟩ := Option.map_eq_some_iff.1 hread
        rfl
      · cases hread
  exact hrecord ▸ hwritable.item hlist hitem

/-- The pace of the interactions in a behaviour record and the flow of the actions, if there are two
interactions or more. -/
def paces (record : Entries) : Except Fault (List Pattern) :=
  if (interactionsIn record).length < 2 then .ok []
  else do
    let actions ← actionsOf (interactionsIn record)
    return rhythmPattern (interactionsIn record) actions :: (flowPattern? actions).toList

theorem behaviorPatterns_eq (config : DetectionConfig) (record : Entries) :
    behaviorPatterns config record = (do
      let found ← paces record
      match Entries.get? record "usage" with
      | some (.map usage) => return found ++ [← usagePattern config usage]
      | _ => return found) := by
  unfold behaviorPatterns paces interactionsIn
  dsimp only
  split
  · rfl
  · exact (bind_assoc _ _ _).symm

theorem paces_of_writable {record : Entries} (h : HaveWritableActions record) : paces record = .ok
    (if (interactionsIn record).length < 2 then []
      else rhythmPattern (interactionsIn record) ((actionsIn record).map Value.display) ::
        (flowPattern? ((actionsIn record).map Value.display)).toList) := by
  unfold paces actionsOf
  split
  · rfl
  · rename_i htwo
    rw [show (interactionsIn record).filterMap Interaction.action? = actionsIn record from rfl,
      Value.mapM_toText_of_forall (h (Nat.not_lt.1 htwo))]
    rfl

/-- An action with too many digits stops the search, if there are two interactions or more. -/
theorem behaviorPatterns_tooManyDigits {config : DetectionConfig} {record : Entries}
    (h : ¬ HaveWritableActions record) :
    behaviorPatterns config record = .error .tooManyDigits := by
  unfold HaveWritableActions at h
  rw [Classical.not_imp, ← List.all_eq_true] at h
  have hactions : actionsOf (interactionsIn record) = .error .tooManyDigits := by
    rw [actionsOf, Value.mapM_toText]
    exact if_neg h.2
  rw [behaviorPatterns_eq, paces, if_neg (Nat.not_lt.2 h.1), hactions]
  rfl

theorem flowPattern?_typed (actions : List String) : AllTyped (flowPattern? actions).toList := by
  unfold flowPattern?
  dsimp only
  split
  · exact allTyped_nil
  · split
    · exact allTyped_nil
    · exact allTyped_of (by trivial) _ _

/-! ## Detectors with settings -/

section

variable {config : DetectionConfig} (hc : config.IsUsable)
include hc

/-! ### Source text -/

theorem densityFactor_returns (density : Float) : Except.Returns (densityFactor config density) := by
  obtain ⟨slope, hslope⟩ := hc.densitySlope
  obtain ⟨floor, hfloor⟩ := hc.densityFloor
  unfold densityFactor
  rw [hslope, hfloor]
  exact Except.returns_ok _

theorem codePattern?_findsOne (es : Entries) (text : List Char) (d : Detector) :
    FindsOne (codePattern? config (.map es) text d) := by
  unfold codePattern?
  dsimp only
  split
  · exact findsOne_none
  · refine (densityFactor_returns hc _).bind fun factor => ?_
    exact findsOne_some (by trivial)

theorem codePatterns_finds (es : Entries) (text : List Char) :
    Finds (codePatterns config (.map es) text) := by
  unfold codePatterns
  split
  · exact Except.gives_ok allTyped_nil
  · have hreturns : ∀ d ∈ Detector.all, Except.Returns (codePattern? config (.map es) text d) :=
      fun d _ => (codePattern?_findsOne hc es text d).returns
    obtain ⟨found, hfound⟩ := Except.returns_mapM hreturns
    rw [hfound]
    refine Except.gives_ok fun p hp => ?_
    obtain ⟨one, hone, rfl⟩ := List.mem_filterMap.1 hp
    obtain ⟨d, -, hd⟩ := Except.exists_source_of_mapM_eq_ok hfound hone
    obtain ⟨one', hone', htyped⟩ := codePattern?_findsOne hc es text d
    cases hd.symm.trans hone'
    exact htyped p (Option.mem_toList.2 rfl)

/-! ### Progressions -/

theorem window_eq {numbers : List Float} (h : 3 ≤ numbers.length) :
    ∃ limit start next rest, config.sequenceWindow.limit? = .ok limit ∧
      takeUpTo limit numbers = start :: next :: rest := by
  obtain ⟨limit, hlimit, hwide⟩ := hc.sequenceWindow
  obtain _ | ⟨start, _ | ⟨next, rest⟩⟩ := numbers
  · cases h
  · simp at h
  · cases limit with
    | none => exact ⟨none, start, next, rest, hlimit, rfl⟩
    | some n =>
      have htwo : 2 ≤ n := hwide n rfl
      obtain ⟨k, hk⟩ : ∃ k, n.toNat = k + 2 := ⟨n.toNat - 2, by omega⟩
      refine ⟨some n, start, next, rest.take k, hlimit, ?_⟩
      unfold takeUpTo
      dsimp only
      rw [if_pos (by omega), hk]
      rfl

theorem arithmetic?_findsOne {numbers : List Float} (h : 3 ≤ numbers.length) :
    FindsOne (arithmetic? config numbers) := by
  obtain ⟨limit, start, next, rest, hlimit, hwindow⟩ := window_eq hc h
  unfold arithmetic?
  rw [hlimit, Except.ok_bind, hwindow]
  dsimp only [neighbourPairs, List.drop, List.zipWith]
  split
  · exact hc.arithmeticConfidence.bind fun confidence => findsOne_some (by trivial)
  · exact findsOne_none

theorem geometric?_findsOne {numbers : List Float} (h : 3 ≤ numbers.length) :
    FindsOne (geometric? config numbers) := by
  obtain ⟨limit, start, next, rest, hlimit, hwindow⟩ := window_eq hc h
  unfold geometric?
  rw [hlimit, Except.ok_bind, hwindow]
  dsimp only [neighbourPairs, List.drop, List.zipWith]
  split
  · exact findsOne_none
  · refine hc.ratioTolerance.bind fun tolerance => ?_
    split
    · exact hc.geometricConfidence.bind fun confidence => findsOne_some (by trivial)
    · exact findsOne_none

/-! ### Nesting -/

theorem hierarchy?_findsOne (items : List Item) : FindsOne (hierarchy? config items) := by
  unfold hierarchy?
  refine hc.hierarchyDepth.bind fun depth => ?_
  split
  · exact findsOne_none
  · exact findsOne_some (by trivial)

/-! ### Behaviour -/

theorem usagePattern_typed (usage : Entries) :
    Except.Gives (fun p => AllTyped [p]) (usagePattern config usage) := by
  unfold usagePattern
  exact hc.usageConfidence.bind fun confidence => Except.gives_ok (allTyped_of (by trivial) _ _)

theorem behaviorPatterns_finds {record : Entries} (h : HaveWritableActions record) :
    Finds (behaviorPatterns config record) := by
  have hpaces : Finds (paces record) := by
    rw [paces_of_writable h]
    refine Except.gives_ok ?_
    split
    · exact allTyped_nil
    · exact (allTyped_of (by trivial) _ _).append (flowPattern?_typed _)
  rw [behaviorPatterns_eq]
  refine hpaces.bind fun found hfound => ?_
  split
  · rename_i usage _
    refine (usagePattern_typed hc usage).bind fun p hp => ?_
    exact Except.gives_ok (hfound.append hp)
  · exact Except.gives_ok hfound

end

/-! ## Sequences -/

def progressions (config : DetectionConfig) (elements : List Item) : Except Fault (List Pattern) :=
  match numbersOf? elements with
  | none => .ok []
  | some numbers => do
    let arithmetic ← arithmetic? config numbers
    let geometric ← geometric? config numbers
    return arithmetic.toList ++ geometric.toList

/-- The clusters of the atoms of a sequence. -/
def clusters (elements : List Item) : Except Fault (List Pattern) :=
  if (Slot.knowns elements).isEmpty then .ok [] else atomPatterns (Slot.knowns elements)

section

variable {config : DetectionConfig} {items elements : List Item}

theorem progressions_finds (hc : config.IsUsable) : Finds (progressions config elements) := by
  unfold progressions
  split
  · exact Except.gives_ok allTyped_nil
  · rename_i numbers hnumbers
    have hlength := length_of_numbersOf? hnumbers
    refine (arithmetic?_findsOne hc hlength).bind fun arithmetic harithmetic => ?_
    refine (geometric?_findsOne hc hlength).bind fun geometric hgeometric => ?_
    exact Except.gives_ok (harithmetic.append hgeometric)

theorem forall_type_of_isJson (hjson : ∀ item ∈ elements, item.IsJson) :
    ∀ a ∈ Slot.knowns elements, ∃ s, a.type = .text s := by
  intro a ha
  have hatom : a.Deep Atom.members Atom.IsJson := hjson (.known a) (Slot.mem_knowns.1 ha)
  exact hatom.here.wellTyped.type

theorem clusters_finds (hnames : HaveTextNames (Slot.knowns elements))
    (htypes : ∀ a ∈ Slot.knowns elements, ∃ s, a.type = .text s) : Finds (clusters elements) := by
  unfold clusters
  split
  · exact Except.gives_ok allTyped_nil
  · refine (typeClusters_finds htypes).bind fun types htypes => ?_
    refine (namingConvention?_findsOne hnames).bind fun naming hnaming => ?_
    exact Except.gives_ok (htypes.append hnaming)

theorem haveTextNames_of_clusters (h : Except.Returns (clusters elements)) :
    HaveTextNames (Slot.knowns elements) := by
  unfold clusters at h
  split at h
  · rename_i hnone
    rw [List.isEmpty_iff.1 hnone]
    exact fun _ => List.forall_mem_nil _
  · obtain ⟨types, -, h⟩ := h.of_bind
    obtain ⟨naming, hnaming, -⟩ := h.of_bind
    exact haveTextNames_of_returns ⟨naming, hnaming⟩

/-- The patterns in a sequence depend only on what its elements are taken as. -/
theorem sequencePatterns_congr {items' : List Item} (h : items.mapM asAtom = items'.mapM asAtom) :
    sequencePatterns config items = sequencePatterns config items' := by
  unfold sequencePatterns
  rw [h]

variable (hitems : items.mapM asAtom = .ok elements)
include hitems

theorem sequencePatterns_eq (hne : elements ≠ []) : sequencePatterns config items = (do
    let progressions ← progressions config elements
    let repetition ← repetition? elements
    let hierarchy ← hierarchy? config elements
    let clusters ← clusters elements
    return progressions ++ repetition.toList ++ hierarchy.toList ++ clusters) := by
  unfold sequencePatterns progressions clusters
  rw [hitems, Except.ok_bind, if_neg (by rwa [List.isEmpty_iff])]
  dsimp only
  -- What follows the numbers and the clusters is the same in both branches of their cases.
  cases numbersOf? elements <;> cases (Slot.knowns elements).isEmpty <;>
    simp only [bind_assoc] <;> rfl

variable (hjson : ∀ item ∈ elements, item.IsJson)
include hjson

/-- The patterns in a sequence are found where all names are texts and all elements can be written. -/
theorem sequencePatterns_finds (hc : config.IsUsable)
    (hnames : HaveTextNames (Slot.knowns elements)) (hwritable : AreWritable elements) :
    Finds (sequencePatterns config items) := by
  by_cases hne : elements = []
  · unfold sequencePatterns
    rw [hitems, Except.ok_bind, hne]
    exact Except.gives_ok allTyped_nil
  rw [sequencePatterns_eq hitems hne]
  have hplain := fun item hitem => (hjson item hitem).exists_plain
  refine (progressions_finds hc).bind fun progressions hprogressions => ?_
  refine (repetition?_findsOne hplain hwritable).bind fun repetition hrepetition => ?_
  refine (hierarchy?_findsOne hc elements).bind fun hierarchy hhierarchy => ?_
  refine (clusters_finds hnames (forall_type_of_isJson hjson)).bind fun clusters hclusters => ?_
  exact Except.gives_ok (((hprogressions.append hrepetition).append hhierarchy).append hclusters)

/-- The patterns in a sequence are found only there. -/
theorem conditions_of_sequencePatterns (h : Except.Returns (sequencePatterns config items)) :
    HaveTextNames (Slot.knowns elements) ∧ AreWritable elements := by
  by_cases hne : elements = []
  · rw [hne]
    exact ⟨fun _ => List.forall_mem_nil _, fun _ => List.forall_mem_nil _⟩
  · rw [sequencePatterns_eq hitems hne] at h
    obtain ⟨progressions, -, h⟩ := h.of_bind
    obtain ⟨repetition, hrepetition, h⟩ := h.of_bind
    obtain ⟨hierarchy, -, h⟩ := h.of_bind
    obtain ⟨found, hclusters, -⟩ := h.of_bind
    have hplain := fun item hitem => (hjson item hitem).exists_plain
    exact ⟨haveTextNames_of_clusters ⟨found, hclusters⟩,
      (repetition?_returns_iff hplain).1 ⟨repetition, hrepetition⟩⟩

end

end KnowledgeGraph
