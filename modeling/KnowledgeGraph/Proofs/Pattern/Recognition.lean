import KnowledgeGraph.Engine
import KnowledgeGraph.Proofs.Atom.Faults
import KnowledgeGraph.Proofs.Learning.Weights
import KnowledgeGraph.Proofs.Pattern.Detection
import KnowledgeGraph.Proofs.Pattern.Selection

/-!
# When recognition returns

A value is searched by its elements, of which those that have the form of an atom record are taken
as atoms (`TakenAs`); a record that is malformed is taken as it is. Recognition in what could be read
from a text returns exactly when all elements can be taken so, all names are texts where two atoms or
more among them are named, and what is put into text on the way has no number with too many digits
(`Recognizer.recognize_returns_iff`). An element cannot be taken where the reading of its record stops
at a fault that is not expected of records, which takes an attention value that is no map, or a number
beyond the range of floats (`exists_takenAs`).
-/

namespace KnowledgeGraph

/-! ## Elements -/

/-- What a value is taken as when it is searched: the atom of its record if it has the form of one,
and the value as it is if it has not, or if the record is malformed. -/
inductive TakenAs : Value → Item → Prop
  | atom {es : Entries} {a : Atom} (form : hasAtomForm es = true)
    (read : Atom.ofRecord (.map es) = .ok a) : TakenAs (.map es) (.known a)
  | malformed {es : Entries} {f : Fault} (form : hasAtomForm es = true)
    (read : Atom.ofRecord (.map es) = .error f) (hf : f.isMalformed = true) :
    TakenAs (.map es) (.raw (.map es))
  | plain {v : Value} (form : ∀ es, v = .map es → hasAtomForm es = false) : TakenAs v (.raw v)

theorem TakenAs.asAtom_eq {v : Value} {item : Item} (h : TakenAs v item) :
    asAtom (.raw v) = .ok item := by
  unfold asAtom
  cases h with
  | atom form read =>
    dsimp only
    rw [if_pos form, read]
  | malformed form read hf =>
    dsimp only
    rw [if_pos form, read]
    dsimp only
    rw [if_pos hf]
  | plain form =>
    cases v with
    | scalar _ | list _ => rfl
    | map es =>
      dsimp only
      rw [form es rfl, if_neg Bool.false_ne_true]

theorem takenAs_of_asAtom {v : Value} {item : Item} (h : asAtom (.raw v) = .ok item) :
    TakenAs v item := by
  cases v with
  | scalar _ | list _ =>
    cases h
    exact .plain fun es hes => by cases hes
  | map es =>
    unfold asAtom at h
    dsimp only at h
    by_cases hform : hasAtomForm es = true
    · rw [if_pos hform] at h
      cases hread : Atom.ofRecord (.map es) with
      | ok a =>
        rw [hread] at h
        cases h
        exact .atom hform hread
      | error f =>
        rw [hread] at h
        dsimp only at h
        by_cases hf : f.isMalformed = true
        · rw [if_pos hf] at h
          cases h
          exact .malformed hform hread hf
        · rw [if_neg hf] at h
          cases h
    · rw [if_neg hform] at h
      cases h
      refine .plain fun es' hes => ?_
      cases hes
      exact Bool.eq_false_iff.2 hform

theorem asAtom_eq_ok {v : Value} {item : Item} : asAtom (.raw v) = .ok item ↔ TakenAs v item :=
  ⟨takenAs_of_asAtom, TakenAs.asAtom_eq⟩

/-- A value is taken as something, unless it has the form of an atom record and somewhere in it a
record with an attention value that is no map, or with a number beyond the range of floats. -/
theorem exists_takenAs {v : Value} (h : ∀ es, v = .map es → hasAtomForm es = true →
    ∀ f fs, Atom.Nested v fs → ¬ Atom.IsUnexpected f fs) : ∃ item, TakenAs v item := by
  by_cases hform : ∃ es, v = .map es ∧ hasAtomForm es = true
  · obtain ⟨es, rfl, hform⟩ := hform
    cases hread : Atom.ofRecord (.map es) with
    | ok a => exact ⟨.known a, .atom hform hread⟩
    | error f =>
      obtain hf | ⟨fs, hnested, hunexpected⟩ := Atom.ofRecord_failsWith _ f hread
      · exact ⟨.raw (.map es), .malformed hform hread hf⟩
      · exact absurd hunexpected (h es rfl hform f fs hnested)
  · refine ⟨.raw v, .plain fun es hes => Bool.eq_false_iff.2 fun htrue => hform ⟨es, hes, htrue⟩⟩

theorem TakenAs.isJson {v : Value} {item : Item} (h : TakenAs v item) (hv : v.IsJson) :
    item.IsJson := by
  cases h with
  | atom _ read => exact Atom.ofRecord_isJson hv read
  | malformed _ _ _ | plain _ => exact hv

/-- The record of an atom that holds values of few enough digits can be written. -/
theorem isWritable_known {a : Atom}
    (h : a.Deep Atom.members (Atom.HasValues (·.isWritable = true))) :
    Slot.isWritable (.known a) = true := by
  obtain ⟨v, hv, -⟩ := Atom.ofRecord_toRecord (h.imp fun _ hb => hb.wellTyped)
  have hplain : Slot.plain (.known a) = .ok v := hv
  unfold Slot.isWritable
  rw [hplain]
  exact Atom.toRecord_hasValues Value.isHereditary_isWritable h v hv

theorem TakenAs.isWritable {v : Value} {item : Item} (h : TakenAs v item)
    (hv : v.isWritable = true) : item.isWritable = true := by
  cases h with
  | atom _ read =>
    exact isWritable_known (Atom.ofRecord_hasValues Value.isHereditary_isWritable hv read)
  | malformed _ _ _ | plain _ => exact hv

/-- The elements by which a value is searched: those of a list, and for an atom what goes out from
it. -/
inductive SearchedBy : Value → List Item → Prop
  | list {items : List Value} {elements : List Item} (h : List.Forall₂ TakenAs items elements) :
    SearchedBy (.list items) elements
  | link {es : Entries} {a : Atom} (h : TakenAs (.map es) (.known a)) :
    SearchedBy (.map es) a.outgoing
  | record {es : Entries} {v : Value} (h : TakenAs (.map es) (.raw v)) : SearchedBy (.map es) []
  | scalar (s : Scalar) : SearchedBy (.scalar s) []

/-- The records in a value that is searched: those within the atom records among its elements, at
every depth. -/
inductive HasRecord : Value → Entries → Prop
  | whole {es fs : Entries} (form : hasAtomForm es = true) (nested : Atom.Nested (.map es) fs) :
    HasRecord (.map es) fs
  | item {items : List Value} {es fs : Entries} (mem : .map es ∈ items)
    (form : hasAtomForm es = true) (nested : Atom.Nested (.map es) fs) : HasRecord (.list items) fs

theorem exists_searchedBy {v : Value} (h : ∀ f fs, HasRecord v fs → ¬ Atom.IsUnexpected f fs) :
    ∃ elements, SearchedBy v elements := by
  cases v with
  | scalar s => exact ⟨[], .scalar s⟩
  | map es =>
    obtain ⟨item, hitem⟩ := exists_takenAs (v := .map es) fun es' hes hform f fs hnested => by
      cases hes
      exact h f fs (.whole hform hnested)
    cases item with
    | known a => exact ⟨a.outgoing, .link hitem⟩
    | raw w => exact ⟨[], .record hitem⟩
  | list items =>
    have htaken : ∀ v ∈ items, ∃ item, TakenAs v item := by
      intro v hv
      refine exists_takenAs fun es hes hform f fs hnested => ?_
      cases hes
      exact h f fs (.item hv hform hnested)
    clear h
    induction items with
    | nil => exact ⟨[], .list .nil⟩
    | cons v items ih =>
      rw [List.forall_mem_cons] at htaken
      obtain ⟨item, hitem⟩ := htaken.1
      obtain ⟨elements, ⟨helements⟩⟩ := ih htaken.2
      exact ⟨item :: elements, .list (.cons hitem helements)⟩

theorem mapM_asAtom_raw {items : List Value} {elements : List Item} :
    (items.map .raw).mapM asAtom = .ok elements ↔ List.Forall₂ TakenAs items elements := by
  rw [Except.mapM_eq_ok, List.forall₂_map_left_iff]
  simp only [asAtom_eq_ok]

theorem mapM_asAtom_taken {items : List Value} {elements : List Item}
    (h : List.Forall₂ TakenAs items elements) : elements.mapM asAtom = .ok elements := by
  have htaken : ∀ item ∈ elements, asAtom item = .ok item := by
    induction h with
    | nil => exact List.forall_mem_nil _
    | cons htaken _ ih =>
      refine List.forall_mem_cons.2 ⟨?_, ih⟩
      cases htaken with
      | atom _ _ => rfl
      | malformed form read hf => exact (TakenAs.malformed form read hf).asAtom_eq
      | plain form => exact (TakenAs.plain form).asAtom_eq
  rw [Except.mapM_of_forall (g := fun item => item) htaken, List.map_id']

theorem mapM_asAtom_known (as : List Atom) :
    (as.map (Slot.known : Atom → Item)).mapM asAtom = .ok (as.map .known) := by
  rw [List.mapM_map]
  exact Except.mapM_of_forall fun a _ => rfl

/-! ## Patterns -/

section

variable {config : DetectionConfig} {v : Value} {elements : List Item}

theorem TakenAs.forall_mem {P : Value → Prop} {Q : Item → Prop} {items : List Value}
    (hP : ∀ {v item}, TakenAs v item → P v → Q item) (h : List.Forall₂ TakenAs items elements)
    (hitems : ∀ v ∈ items, P v) : ∀ item ∈ elements, Q item := by
  intro item hitem
  obtain ⟨v, hv, htaken⟩ := Except.exists_of_forall₂ h hitem
  exact hP htaken (hitems v hv)

theorem mapM_asAtom_outgoing {es : Entries} {a : Atom} (h : TakenAs (.map es) (.known a)) :
    a.outgoing.mapM asAtom = .ok a.outgoing := by
  cases h with
  | atom _ read =>
    obtain ⟨-, -, -, -, ⟨bs, -, hout⟩, -⟩ := Atom.ofRecord_fields read
    rw [hout, mapM_asAtom_known]

theorem findPatterns_link {es : Entries} {a : Atom} (h : TakenAs (.map es) (.known a))
    (context : Value) :
    findPatterns config (.value (.map es)) context = sequencePatterns config a.outgoing := by
  unfold findPatterns
  dsimp only
  rw [h.asAtom_eq]
  rfl

theorem findPatterns_record {es : Entries} (h : TakenAs (.map es) (.raw v)) (context : Value) :
    findPatterns config (.value (.map es)) context = behaviorPatterns config es := by
  unfold findPatterns
  dsimp only
  rw [h.asAtom_eq]
  rfl

/-- What goes out from the atom of a record with texts for keys has texts for keys. -/
theorem forall_isJson_outgoing {a : Atom} (h : TakenAs v (.known a)) (hv : v.IsJson) :
    ∀ item ∈ a.outgoing, item.IsJson := by
  have hdeep : a.Deep Atom.members Atom.IsJson := h.isJson hv
  intro item hitem
  obtain ⟨b, rfl, hb⟩ := hdeep.member (List.mem_append_left _ hitem)
  exact hb

/-- Where a value is searched as a behaviour record, its actions can be written. -/
def WritesActions (v : Value) : Prop :=
  ∀ es w, v = .map es → TakenAs v (.raw w) → HaveWritableActions es

/-- All elements of a value without numbers of too many digits can be written. -/
theorem SearchedBy.areWritable (h : SearchedBy v elements) (hv : v.isWritable = true) :
    AreWritable elements := by
  intro _
  cases h with
  | list htaken =>
    rw [Value.isWritable_list, List.all_eq_true] at hv
    exact TakenAs.forall_mem TakenAs.isWritable htaken hv
  | link htaken =>
    cases htaken with
    | atom _ read =>
      have hdeep := Atom.ofRecord_hasValues Value.isHereditary_isWritable hv read
      intro item hitem
      obtain ⟨b, rfl, hb⟩ := hdeep.member (List.mem_append_left _ hitem)
      exact isWritable_known hb
  | record _ | scalar _ => exact List.forall_mem_nil _

theorem writesActions_of_isWritable (hv : v.isWritable = true) : WritesActions v := by
  rintro es w rfl -
  exact haveWritableActions_of_isWritable hv

theorem findPatterns_finds (hc : config.IsUsable) (hv : v.IsJson) (context : Entries)
    (h : SearchedBy v elements) (hnames : HaveTextNames (Slot.knowns elements))
    (hwritable : AreWritable elements) (hactions : WritesActions v) :
    Finds (findPatterns config (.value v) (.map context)) := by
  cases h with
  | list htaken =>
    have hjson := TakenAs.forall_mem TakenAs.isJson htaken fun _ => hv.item
    exact sequencePatterns_finds (mapM_asAtom_raw.2 htaken) hjson hc hnames hwritable
  | link htaken =>
    rw [findPatterns_link htaken]
    exact sequencePatterns_finds (mapM_asAtom_outgoing htaken) (forall_isJson_outgoing htaken hv) hc
      hnames hwritable
  | record htaken =>
    rw [findPatterns_record htaken]
    exact behaviorPatterns_finds hc (hactions _ _ rfl htaken)
  | scalar k =>
    cases k with
    | text s =>
      have hcontext : (Value.map context).orElse (.map []) = .map context := by
        cases context <;> rfl
      unfold findPatterns
      rw [hcontext]
      exact codePatterns_finds hc context s.toList
    | _ => exact Except.gives_ok allTyped_nil

/-- Patterns are found only if all elements can be taken as something, all names are texts, and
elements and actions can be written. -/
theorem searchedBy_of_findPatterns {context : Value} (hv : v.IsJson)
    (h : Except.Returns (findPatterns config (.value v) context)) :
    (∃ elements, SearchedBy v elements ∧ HaveTextNames (Slot.knowns elements) ∧
      AreWritable elements) ∧ WritesActions v := by
  have hnone : HaveTextNames (Slot.knowns ([] : List Item)) ∧ AreWritable [] :=
    ⟨fun _ => List.forall_mem_nil _, fun _ => List.forall_mem_nil _⟩
  cases v with
  | scalar s => exact ⟨⟨[], .scalar s, hnone⟩, nofun⟩
  | list items =>
    obtain ⟨elements, helements, -⟩ := h.of_bind
    have htaken := mapM_asAtom_raw.1 helements
    have hjson := TakenAs.forall_mem TakenAs.isJson htaken fun _ => hv.item
    exact ⟨⟨elements, .list htaken, conditions_of_sequencePatterns helements hjson h⟩, nofun⟩
  | map es =>
    obtain ⟨item, hitem, -⟩ := h.of_bind
    have htaken := takenAs_of_asAtom hitem
    cases item with
    | raw v =>
      rw [findPatterns_record htaken] at h
      refine ⟨⟨[], .record htaken, hnone⟩, ?_⟩
      rintro _ _ ⟨⟩ -
      by_contra hactions
      rw [behaviorPatterns_tooManyDigits hactions] at h
      exact Except.not_returns_error _ h
    | known a =>
      rw [findPatterns_link htaken] at h
      refine ⟨⟨a.outgoing, .link htaken, conditions_of_sequencePatterns
        (mapM_asAtom_outgoing htaken) (forall_isJson_outgoing htaken hv) h⟩, ?_⟩
      intro _ w _ hraw
      cases hitem.symm.trans hraw.asAtom_eq

end

/-! ## Requests -/

/-- The context is a map, or missing, with texts or nothing for the user, the scope is a text or
missing, and the options are of their types. -/
structure RecognitionRequest.IsWellTyped (request : RecognitionRequest) : Prop where
  context : ∃ es, request.context.orElse (.map []) = .map es ∧
    (Entries.field es "userId").IsTextOrNull ∧ (Entries.field es "user_id").IsTextOrNull
  scope : request.scope.IsTextOrNull
  maxResults : ∃ n, request.options.maxResults = .int n
  minConfidence : Except.Returns request.options.minConfidence.quantity
  patternTypes : ∃ types, request.options.Names types

theorem RecognitionRequest.isWellTyped_default (subject : Subject) :
    RecognitionRequest.IsWellTyped { subject } where
  context := ⟨[], rfl, .inl rfl, .inl rfl⟩
  scope := .inl rfl
  maxResults := ⟨10, rfl⟩
  minConfidence := ⟨_, rfl⟩
  patternTypes := ⟨[], .inl ⟨rfl, rfl⟩⟩

/-- There is no provider of weights, or one that has a factor for every user. -/
def Recognizer.WeighsUsers (r : Recognizer) : Prop :=
  ∀ provider, r.weight? = some provider → ∀ user : Value, user.IsTextOrNull →
    Except.Gives (fun w : Value => Except.Returns w.operand) (provider user patternDomain)

theorem Engine.recognizer_weighsUsers (e : Engine) : e.recognizer.WeighsUsers := by
  rintro provider ⟨⟩ user huser
  obtain ⟨k, hk⟩ : ∃ k, user.orElse (.text Learner.anonymousUser) = .scalar k := by
    obtain rfl | ⟨s, rfl⟩ := huser
    · exact ⟨_, rfl⟩
    · unfold Value.orElse
      split
      · exact ⟨_, rfl⟩
      · exact ⟨_, rfl⟩
  unfold weights
  rw [Learner.weight_eq hk]
  exact Except.gives_ok (Except.returns_ok _)

namespace Recognizer

variable {r : Recognizer} {request : RecognitionRequest}

theorem weight_gives (hr : r.WeighsUsers) {es : Entries}
    (huser : (Entries.field es "userId").IsTextOrNull)
    (huser' : (Entries.field es "user_id").IsTextOrNull) :
    Except.Gives (fun w : Value => Except.Returns w.operand) (r.weight (.map es)) := by
  have hcontext : Except.Gives Value.IsTextOrNull (contextUser (.map es)) := by
    show Except.Gives _ (if (Entries.field es "userId").isAbsent = true then
      .ok (Entries.field es "user_id") else .ok (Entries.field es "userId"))
    split
    · exact Except.gives_ok huser'
    · exact Except.gives_ok huser
  unfold weight
  split
  · exact Except.gives_ok (Except.returns_ok _)
  · rename_i provider hprovider
    exact hcontext.bind fun user huser => hr provider hprovider user huser

/-- A well-typed request is answered where the patterns are found, each with its type. -/
theorem recognize_returns {found : List Pattern} (hr : r.WeighsUsers)
    (hrequest : request.IsWellTyped)
    (hfound : findPatterns r.config request.subject (request.context.orElse (.map [])) = .ok found)
    (htyped : AllTyped found) : Except.Returns (r.recognize request) := by
  obtain ⟨es, hes, huser, huser'⟩ := hrequest.context
  obtain ⟨n, hn⟩ := hrequest.maxResults
  obtain ⟨bound, hbound⟩ := hrequest.minConfidence
  obtain ⟨types, htypes⟩ := hrequest.patternTypes
  obtain ⟨w, hw, hoperand⟩ := weight_gives hr huser huser'
  have husable : IsUsable request.scope w types found :=
    { scope := hrequest.scope.toKey
      weight := hoperand
      tags := fun _ p hp => by
        obtain ⟨t, ht⟩ := htyped p hp
        exact ⟨_, _, ht, rfl⟩ }
  unfold recognize
  rw [hes] at hfound
  dsimp only
  rw [hes, hfound, Except.ok_bind, hw, Except.ok_bind]
  exact exists_rankPatterns hn hbound htypes husable

/-- **Recognition.** A well-typed request for the patterns in a value with texts for keys is answered
exactly if the elements of the value can be taken as something, all names are texts where two atoms or
more among them are named, and the elements and actions that are put into text can be written. They
can be taken so if no attention value of an atom record is other than a map, and no number in one is
beyond the range of floats; and they can be written if no number in the value has too many digits. A
malformed record does no harm: the patterns are those of the elements with the record as it is. -/
theorem recognize_returns_iff {v : Value} (hconfig : r.config.IsUsable) (hr : r.WeighsUsers)
    (hrequest : request.IsWellTyped) (hsubject : request.subject = .value v) (hv : v.IsJson) :
    (Except.Returns (r.recognize request) ↔
      (∃ elements, SearchedBy v elements ∧ HaveTextNames (Slot.knowns elements) ∧
        AreWritable elements) ∧ WritesActions v) ∧
    ((∀ f fs, HasRecord v fs → ¬ Atom.IsUnexpected f fs) → ∃ elements, SearchedBy v elements) ∧
    (v.isWritable = true →
      (∀ elements, SearchedBy v elements → AreWritable elements) ∧ WritesActions v) ∧
    (∀ items elements, v = .list items → List.Forall₂ TakenAs items elements → ∀ context,
      findPatterns r.config (.value v) context = sequencePatterns r.config elements) ∧
    ∀ es w, v = .map es → TakenAs v (.raw w) → ∀ context,
      findPatterns r.config (.value v) context = behaviorPatterns r.config es := by
  refine ⟨⟨fun h => ?returns, ?searched⟩, exists_searchedBy, fun hwritable => ?written, ?list,
    ?record⟩
  case returns =>
    obtain ⟨found, hfound, -⟩ := h.of_bind
    rw [hsubject] at hfound
    exact searchedBy_of_findPatterns hv ⟨found, hfound⟩
  case searched =>
    rintro ⟨⟨elements, hsearched, hnames, hwritable⟩, hactions⟩
    obtain ⟨es, hes, -⟩ := hrequest.context
    obtain ⟨found, hfound, htyped⟩ :=
      findPatterns_finds hconfig hv es hsearched hnames hwritable hactions
    exact recognize_returns hr hrequest (by rw [hsubject, hes, hfound]) htyped
  case written =>
    exact ⟨fun _ hsearched => hsearched.areWritable hwritable,
      writesActions_of_isWritable hwritable⟩
  case list =>
    rintro items elements rfl htaken context
    exact sequencePatterns_congr ((mapM_asAtom_raw.2 htaken).trans (mapM_asAtom_taken htaken).symm)
  case record =>
    rintro es w rfl htaken context
    exact findPatterns_record htaken context

/-- An atom record whose truth value is a number is searched as it is; one whose attention value is a
text stops recognition. -/
theorem recognize_returns_iff_malformed :
    let malformed : Value := .record [("type", .text "T"), ("truthValue", .int 5)]
    let named : Value := .record [("type", .text "T"), ("name", .text "get_user")]
    let high : Value := .record [("type", .text "T"), ("attentionValue", .text "high")]
    let r := (Engine.start {}).recognizer
    Except.Returns (r.recognize { subject := .value (.list [malformed, named, named]) }) ∧
      ¬ Except.Returns (r.recognize { subject := .value (.list [named, high]) }) := by
  intro malformed named high r
  have hrecord (field : String) (v : Value) (hv : v.IsJson) :
      (Value.record [("type", .text "T"), (field, v)]).IsJson := by
    refine .record ?_
    simp [Value.IsJson.scalar, hv]
  have hmalformed : malformed.IsJson := hrecord _ _ (.scalar _)
  have hnamed : named.IsJson := hrecord _ _ (.scalar _)
  have hhigh : high.IsJson := hrecord _ _ (.scalar _)
  have htyped (v : Value) := RecognitionRequest.isWellTyped_default (.value v)
  have hconfig : r.config.IsUsable := DetectionConfig.isUsable_default
  have hweights : r.WeighsUsers := Engine.recognizer_weighsUsers _
  constructor
  · have hjson : (Value.list [malformed, named, named]).IsJson := .list <| by
      simp [hmalformed, hnamed]
    have htaken : TakenAs named (.known _) := .atom rfl rfl
    have helements : List.Forall₂ TakenAs [malformed, named, named] _ :=
      .cons (.malformed rfl rfl rfl) (.cons htaken (.cons htaken .nil))
    obtain ⟨hreturns, -, hwritable, -⟩ :=
      recognize_returns_iff hconfig hweights (htyped (.list [malformed, named, named])) rfl hjson
    obtain ⟨helementsWritable, hactions⟩ := hwritable (by decide +kernel)
    refine hreturns.2 ⟨⟨_, .list helements, fun _ => ?_, helementsWritable _ (.list helements)⟩,
      hactions⟩
    exact List.forall_mem_cons.2 ⟨fun _ => ⟨_, rfl⟩,
      List.forall_mem_singleton.2 fun _ => ⟨_, rfl⟩⟩
  · have hjson : (Value.list [named, high]).IsJson := .list <| by simp [hnamed, hhigh]
    intro h
    obtain ⟨⟨elements, ⟨_ | ⟨_, _ | ⟨hbad, _⟩⟩⟩, -⟩, -⟩ :=
      (recognize_returns_iff hconfig hweights (htyped _) rfl hjson).1.1 h
    have hstops : asAtom (.raw high) = .error .noSuchField := rfl
    cases hstops.symm.trans hbad.asAtom_eq

end Recognizer

end KnowledgeGraph
