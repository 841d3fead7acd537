import KnowledgeGraph.Proofs.Learning.Calls
import KnowledgeGraph.Proofs.Learning.Steps
import KnowledgeGraph.Proofs.Number.Arithmetic

/-!
# Creating and training models

Only two operations change models (`perform_keepsModels`). To create one takes the next number, also
when the parameters cannot be read then (`createModel_runOn`). To train one on a batch of records is
refused before anything changes, or else extends the model by the batch and rates it by the feedback
in the batch alone (`trainModel_outcome`, `trainModel_runOn`).
-/

namespace KnowledgeGraph.Learner

open Attempt

/-! ## Frames -/

section

variable {I : Learner → Prop} (hI : ∀ l l' : Learner, l'.config = l.config → l'.models = l.models →
  l'.modelCount = l.modelCount → I l → I l')
include hI

theorem storesOfModels : Stores I fun _ => True :=
  Stores.any (fun l _ hl => hI l _ rfl rfl rfl hl) fun l _ hl => hI l _ rfl rfl rfl hl

theorem learn_keepsModels (r : LearningRecord) : Keeps I (learn r) := by
  intro l hl
  rw [learn_runOn_snd]
  have hprocess : Keeps I (process (l.stamp r)) :=
    process_keeps (fun l hl => hI l _ rfl rfl rfl hl)
      (fun user given _ => mergePreferences_keeps (fun l _ hl => hI l _ rfl rfl rfl hl) user given)
      (fun user action context _ => noteBehavior_keeps (fun l _ hl => hI l _ rfl rfl rfl hl)
        (fun l _ hl => hI l _ rfl rfl rfl hl) user action context)
      fun user domain data _ => (storesOfModels hI).adapt user domain data
  exact hprocess (l.withRecord r) (hI l _ rfl rfl rfl hl)

/-- A property of the models is kept by a call if it is kept when a model is created or trained. -/
theorem perform_keepsModels {c : Command}
    (hcreate : ∀ type parameters, c = .createModel type parameters →
      Keeps I (createModel type parameters))
    (htrain : ∀ id data, c = .trainModel id data → Keeps I (trainModel id data)) :
    Keeps I (perform c) :=
  perform_keepsAll hcreate htrain (fun r _ => learn_keepsModels hI r)
    (fun _ _ f slot _ _ => (storesOfModels hI).nudge_of f slot)
    (fun user domain data _ => (storesOfModels hI).adapt user domain data)
    fun user given _ => mergePreferences_keeps (fun l _ hl => hI l _ rfl rfl rfl hl) user given

end

/-! ## Creating -/

def modelId (n : Nat) : String := s!"model_{n}"

theorem modelId_injective : Function.Injective modelId := by
  intro m n h
  unfold modelId at h
  rw [String.append_right_inj] at h
  exact toString_injective h

def newModel (n : Nat) (type : Value) (parameters : Entries) (now : Nat) : LearningModel :=
  { id := modelId n, type, parameters, createdAt := now, updatedAt := now }

/-- The number is taken before the parameters are read, and the model is there before its type is
mentioned. -/
theorem createModel_runOn (type parameters : Value) (l : Learner) :
    (createModel type parameters).runOn l = match parameters.toMapOrEmpty with
      | .error f => (.error f, { l with modelCount := l.modelCount + 1 })
      | .ok ps => ((Value.mention [type]).map fun _ => newModel (l.modelCount + 1) type ps l.now, {
          l with
          modelCount := l.modelCount + 1
          models := l.models.put (modelId (l.modelCount + 1))
            (newModel (l.modelCount + 1) type ps l.now) }) := by
  unfold createModel
  rw [runOn_bind, runOn_modify]
  dsimp only
  rw [runOn_bind, runOn_lift]
  cases parameters.toMapOrEmpty with
  | error f => rfl
  | ok ps =>
    dsimp only
    rw [runOn_bind, runOn_get]
    dsimp only
    rw [runOn_bind, runOn_set]
    dsimp only
    rw [runOn_bind, runOn_lift]
    cases Value.mention [type] <;> rfl

/-! ## Batches -/

/-- The members are records, and the feedback of each is null or a map. A value without members is
refused as a whole. -/
def IsBatch (data : Value) : Prop :=
  ∀ items, data.members = .ok items → ∀ v ∈ items, ∃ es, v = .map es ∧
    (Entries.field es "feedback" = .null ∨ ∃ fs, Entries.field es "feedback" = .map fs)

/-- The feedback on the records of a batch. -/
def feedbackOf (batch : List (Slot LearningRecord)) : List Feedback :=
  Slot.knowns ((Slot.knowns batch).map (·.feedback))

/-- The share of feedback that says that it helped. -/
def shareOf (feedback : List Feedback) : Float :=
  (feedback.countP (·.helpful)).toFloat / feedback.length.toFloat

/-- How accurate a batch says that a model is: the share of its feedback that says that it helped, and
the default without feedback. -/
def accuracyOf (default : Quantity) (batch : List (Slot LearningRecord)) : Float :=
  if (feedbackOf batch).isEmpty then default.toUnit else shareOf (feedbackOf batch)

/-- A share is in the unit interval, as long as its total is not too long for a float. -/
theorem inUnit_shareOf {feedback : List Feedback} (hne : feedback ≠ [])
    (hlen : feedback.length < 2 ^ 53) : InUnit (shareOf feedback) :=
  inUnit_share List.countP_le_length (List.length_pos_of_ne_nil hne) hlen

variable {data : Value} {batch : List (Slot LearningRecord)}

/-- A slot that was read is empty or known exactly if the value was null or a map. -/
theorem readSlot_spec {α : Type} {reader : Value → Except Fault α} {v : Value} {slot : Slot α}
    (h : LearningRecord.readSlot reader v = .ok slot) :
    (slot = .empty ↔ v = .null) ∧ ((∃ a, slot = .known a) ↔ ∃ es, v = .map es) := by
  cases slot with
  | known a =>
    obtain ⟨es, rfl, -⟩ := readSlot_eq_known h
    exact ⟨⟨nofun, nofun⟩, fun _ => ⟨es, rfl⟩, fun _ => ⟨a, rfl⟩⟩
  | raw w =>
    obtain ⟨rfl, hmap⟩ := readSlot_eq_raw h
    refine ⟨⟨fun hempty => Slot.raw.inj hempty, congrArg Slot.raw⟩, nofun, ?_⟩
    rintro ⟨es, hes⟩
    exact absurd hes (hmap es)

/-- The member is a record, and its feedback is missing or known. -/
def IsRated (slot : Slot LearningRecord) : Prop :=
  ∃ r, slot = .known r ∧ (r.feedback = .empty ∨ ∃ f, r.feedback = .known f)

/-- A member that was read is such a record exactly if it was a map with such feedback. -/
theorem isRated_iff {v : Value} {slot : Slot LearningRecord}
    (h : LearningRecord.readSlot LearningRecord.ofRecord v = .ok slot) :
    IsRated slot ↔ ∃ es, v = .map es ∧
      (Entries.field es "feedback" = .null ∨ ∃ fs, Entries.field es "feedback" = .map fs) := by
  constructor
  · rintro ⟨r, rfl, hfeedback⟩
    obtain ⟨es, rfl, hr⟩ := readSlot_eq_known h
    obtain ⟨_, heq, hread, -⟩ := ofRecord_slots hr
    cases heq
    obtain ⟨hempty, hknown⟩ := readSlot_spec hread
    exact ⟨es, rfl, hfeedback.imp hempty.1 hknown.1⟩
  · rintro ⟨es, rfl, hfield⟩
    obtain ⟨r, rfl⟩ := (readSlot_spec h).2.2 ⟨es, rfl⟩
    obtain ⟨_, hes, hr⟩ := readSlot_eq_known h
    cases hes
    obtain ⟨_, heq, hread, -⟩ := ofRecord_slots hr
    cases heq
    obtain ⟨hempty, hknown⟩ := readSlot_spec hread
    exact ⟨r, rfl, hfield.imp hempty.2 hknown.2⟩

/-- Whether a value is a batch of records can be told from the members that were read. -/
theorem isBatch_iff (h : readBatch data = .ok batch) :
    IsBatch data ↔ ∀ slot ∈ batch, IsRated slot := by
  obtain ⟨items, hitems, h⟩ := Except.bind_eq_ok.1 h
  unfold IsBatch
  simp only [hitems, Except.ok.injEq, forall_eq']
  constructor
  · intro hdata slot hslot
    obtain ⟨v, hv, hread⟩ := Except.exists_source_of_mapM_eq_ok h hslot
    exact (isRated_iff hread).2 (hdata v hv)
  · intro hbatch v hv
    obtain ⟨slot, hslot, hread⟩ := Except.exists_target_of_mapM_eq_ok h hv
    exact (isRated_iff hread).1 (hbatch slot hslot)

/-- The feedback of a batch is found when its members are records. -/
theorem ratings_eq (h : ∀ slot ∈ batch, IsRated slot) :
    LearningModel.ratings batch = .ok ((feedbackOf batch).map .known) := by
  have hmap : (batch.mapM fun slot => return (← slot.get).feedback : Except Fault _) =
      .ok ((Slot.knowns batch).map (·.feedback)) := by
    induction batch with
    | nil => rfl
    | cons slot rest ih =>
      obtain ⟨r, rfl, -⟩ := h slot List.mem_cons_self
      rw [List.mapM_cons, ih fun s hs => h s (List.mem_cons_of_mem _ hs)]
      rfl
  have hfilter : ((Slot.knowns batch).map (·.feedback)).filter (fun f => !f.isEmpty) =
      (feedbackOf batch).map .known := by
    clear * - h
    unfold feedbackOf
    induction batch with
    | nil => rfl
    | cons slot rest ih =>
      obtain ⟨r, rfl, hfeedback⟩ := h slot List.mem_cons_self
      have ih := ih fun s hs => h s (List.mem_cons_of_mem _ hs)
      show ((r.feedback :: (Slot.knowns rest).map (·.feedback)).filter fun f => !f.isEmpty) =
        (Slot.knowns (r.feedback :: (Slot.knowns rest).map (·.feedback))).map .known
      obtain hempty | ⟨f, hknown⟩ := hfeedback
      · rw [hempty]
        exact ih
      · rw [hknown]
        exact congrArg (Slot.known f :: ·) ih
  unfold LearningModel.ratings
  rw [hmap, Except.ok_bind, hfilter]
  rfl

theorem mapM_get_known {α : Type} (as : List α) : (as.map Slot.known).mapM Slot.get = .ok as :=
  Except.mapM_eq_ok.2 (List.forall₂_map_left_iff.2 (List.forall₂_same.2 fun _ _ => rfl))

theorem helpfulShare_eq {default : Value} {q : Quantity} (hq : default.quantity = .ok q) :
    LearningModel.helpfulShare default ((feedbackOf batch).map .known) =
      .ok (accuracyOf q batch) := by
  unfold LearningModel.helpfulShare accuracyOf
  rw [List.isEmpty_map, hq, mapM_get_known, List.length_map]
  cases (feedbackOf batch).isEmpty <;> rfl

/-- What a batch says about a model: how accurate it is, and how much feedback says so. -/
def verdict (config : LearningConfig) (batch : List (Slot LearningRecord)) :
    Except Fault (Float × Nat) := do
  let ratings ← LearningModel.ratings batch
  return (← LearningModel.helpfulShare config.defaultAccuracy ratings, ratings.length)

theorem verdict_eq {config : LearningConfig} {q : Quantity}
    (hq : config.defaultAccuracy.quantity = .ok q)
    (h : ∀ slot ∈ batch, IsRated slot) :
    verdict config batch = .ok (accuracyOf q batch, (feedbackOf batch).length) := by
  unfold verdict
  rw [ratings_eq h, Except.ok_bind, helpfulShare_eq hq, List.length_map]
  rfl

/-! ## Training -/

theorem model?_eq_ok {l : Learner} {id : Value} {m : LearningModel} :
    l.model? id = .ok (some m) ↔ ∃ s, id = .text s ∧ l.models.lookup? s = some m := by
  cases id with
  | list _ | map _ =>
    constructor
    · rintro ⟨⟩
    · rintro ⟨s, ⟨⟩, -⟩
  | scalar k =>
    cases k with
    | text s =>
      show Except.ok (l.models.lookup? s) = .ok (some m) ↔ _
      simp
    | _ =>
      show Except.ok none = .ok (some m) ↔ _
      simp

/-- A model after it was trained on a batch. -/
def trained (default : Quantity) (batch : List (Slot LearningRecord)) (now : Nat)
    (m : LearningModel) : LearningModel :=
  (m.extend batch).rate (accuracyOf default batch) (feedbackOf batch).length now

/-- The fault of a call that names a model that is not there. -/
def missing (id : Value) : Fault := if id.isWritable then .modelNotFound id else .tooManyDigits

theorem runOn_missing (id : Value) (l : Learner) : Attempt.runOn (do
    Value.mention [id]
    throw (.modelNotFound id) : Attempt Learner LearningModel) l = (.error (missing id), l) := by
  rw [runOn_bind, runOn_lift]
  unfold Value.mention missing
  rw [List.all_cons, List.all_nil, Bool.and_true]
  cases id.isWritable <;> rfl

/-- **Training.** It is refused before anything changes, or else the model gets the batch and is rated
by it then. -/
theorem trainModel_outcome (id data : Value) (l : Learner) :
    (trainModel id data).runOn l = match readBatch data, l.model? id with
      | .error f, _ => (.error f, l)
      | .ok _, .error f => (.error f, l)
      | .ok _, .ok none => (.error (missing id), l)
      | .ok batch, .ok (some m) => match verdict l.config batch with
        | .error f => (.error f, { l with models := l.models.put m.id (m.extend batch) })
        | .ok (accuracy, samples) => (.ok ((m.extend batch).rate accuracy samples l.now),
            { l with models :=
                l.models.put m.id ((m.extend batch).rate accuracy samples l.now) }) := by
  unfold trainModel
  rw [runOn_bind, runOn_lift]
  cases readBatch data with
  | error f => rfl
  | ok batch =>
    dsimp only
    rw [runOn_bind, runOn_get]
    dsimp only
    rw [runOn_bind, runOn_lift]
    cases l.model? id with
    | error f => rfl
    | ok found =>
      cases found with
      | none => exact runOn_missing id l
      | some m =>
        have hput (m' : LearningModel) (hid : m'.id = m.id) :
            (l.models.put m.id (m.extend batch)).put m'.id m' = l.models.put m.id m' := by
          rw [hid]
          exact Table.put_put (Key.sharp_string m.id).same_self _ _ _
        unfold verdict
        simp only [storeModel, runOn_bind, runOn_modify, runOn_lift, runOn_get, runOn_pure]
        cases LearningModel.ratings batch with
        | error f => rfl
        | ok ratings =>
          rw [Except.ok_bind]
          dsimp only
          cases LearningModel.helpfulShare l.config.defaultAccuracy ratings with
          | error f => rfl
          | ok accuracy =>
            have hrated := hput ((m.extend batch).rate accuracy ratings.length l.now) rfl
            exact congrArg (fun models => (_, { l with models })) hrated

/-- On a batch of records a training that is not refused comes to its end. -/
theorem trainModel_runOn {l : Learner} {default : Quantity}
    (hdefault : l.config.defaultAccuracy.quantity = .ok default) (hdata : IsBatch data) (id : Value) :
    (trainModel id data).runOn l = match readBatch data, l.model? id with
      | .error f, _ => (.error f, l)
      | .ok _, .error f => (.error f, l)
      | .ok _, .ok none => (.error (missing id), l)
      | .ok batch, .ok (some m) => (.ok (trained default batch l.now m),
          { l with models := l.models.put m.id (trained default batch l.now m) }) := by
  rw [trainModel_outcome]
  cases hbatch : readBatch data with
  | error f => rfl
  | ok batch =>
    cases l.model? id with
    | error f => rfl
    | ok found =>
      cases found with
      | none => rfl
      | some m =>
        dsimp only
        rw [verdict_eq hdefault ((isBatch_iff hbatch).1 hdata)]
        rfl

end KnowledgeGraph.Learner
