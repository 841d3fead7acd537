import KnowledgeGraph.Proofs.Learning.Models

/-!
# The life of a model

What a run has done to its models can be told from two lists: the creations that were asked for, each
of which takes the next number (`modelIds`), and the trainings that came out well (`trainings`). After
any calls the models are those of the first list, in order, and each is what the trainings under its
id have made of it (`after_models`): it has a version for each of them and all their records, and is
rated by the last one alone. One more call changes at most the model that it is about, and none when
it is refused.
-/

namespace KnowledgeGraph.Learner

open Attempt

/-! ## What a run was asked for -/

/-- The parameters that the calls ask to create models with, in order. -/
def creations (calls : List (Nat × Command)) : List Value :=
  calls.filterMap fun call => match call.2 with
    | .createModel _ parameters => some parameters
    | _ => none

/-- The ids of models created with the given parameters, numbered from a start. A creation whose
parameters are no map takes a number, but leaves no model. -/
def createdIds : Nat → List Value → List String
  | _, [] => []
  | n, p :: rest =>
    if p.toMapOrEmpty.isOk then modelId n :: createdIds (n + 1) rest else createdIds (n + 1) rest

/-- The ids of the models that the calls create, in order. -/
def modelIds (calls : List (Nat × Command)) : List String := createdIds 1 (creations calls)

/-- A training of a model on a batch. -/
structure Training where
  model : String
  batch : List (Slot LearningRecord)

/-- The training that a call is, if it comes out well. -/
def training? (l : Learner) : Command → Option Training
  | .trainModel (.text id) data =>
    match ((trainModel (.text id) data).runOn l).1, readBatch data with
    | .ok _, .ok batch => some ⟨id, batch⟩
    | _, _ => none
  | _ => none

/-- The trainings of a run that come out well, in order. -/
def trainings : Learner → List (Nat × Command) → List Training
  | _, [] => []
  | l, call :: rest =>
    (training? { l with now := call.1 } call.2).toList ++
      trainings ((perform call.2).runOn { l with now := call.1 }).2 rest

/-- The batches that a model was trained on, in order. -/
def batchesOf (log : List Training) (id : String) : List (List (Slot LearningRecord)) :=
  (log.filter (·.model = id)).map (·.batch)

/-- A call that trains a model does so on a batch of records. -/
def Command.HasBatch : Command → Prop
  | .trainModel _ data => IsBatch data
  | _ => True

variable {config : LearningConfig} {calls : List (Nat × Command)} {call : Nat × Command}
  {log : List Training} {l l' : Learner} {default : Quantity}

theorem trainings_concat (config : LearningConfig) (calls : List (Nat × Command))
    (call : Nat × Command) : trainings (start config) (calls ++ [call]) =
      trainings (start config) calls ++
        (training? { after config calls with now := call.1 } call.2).toList := by
  unfold after
  generalize start config = l
  induction calls generalizing l with
  | nil => exact List.append_nil _
  | cons first rest ih =>
    rw [List.cons_append, trainings, trainings, ih, List.append_assoc]
    rfl

theorem creations_append (calls more : List (Nat × Command)) :
    creations (calls ++ more) = creations calls ++ creations more := List.filterMap_append

theorem createdIds_append (n : Nat) (ps qs : List Value) :
    createdIds n (ps ++ qs) = createdIds n ps ++ createdIds (n + ps.length) qs := by
  induction ps generalizing n with
  | nil => rfl
  | cons p ps ih =>
    have hlength : n + (p :: ps).length = n + 1 + ps.length := by simp; omega
    rw [List.cons_append, createdIds, createdIds, ih, hlength]
    split <;> rfl

theorem createdIds_sublist (n : Nat) (ps : List Value) :
    (createdIds n ps).Sublist ((List.range' n ps.length).map modelId) := by
  induction ps generalizing n with
  | nil => exact List.Sublist.refl _
  | cons p ps ih =>
    rw [List.length_cons, List.range'_succ, List.map_cons, createdIds]
    split
    · exact (ih (n + 1)).cons_cons _
    · exact (ih (n + 1)).cons _

/-- Where all parameters can be read, no number is left out. -/
theorem createdIds_eq (n : Nat) {ps : List Value} (h : ∀ p ∈ ps, p.toMapOrEmpty.isOk = true) :
    createdIds n ps = (List.range' n ps.length).map modelId := by
  induction ps generalizing n with
  | nil => rfl
  | cons p ps ih =>
    rw [List.length_cons, List.range'_succ, List.map_cons, createdIds, if_pos (h p (by simp)),
      ih (n + 1) fun q hq => h q (by simp [hq])]

theorem modelIds_append (calls more : List (Nat × Command)) : modelIds (calls ++ more) =
    modelIds calls ++ createdIds (1 + (creations calls).length) (creations more) := by
  unfold modelIds
  rw [creations_append, createdIds_append]

theorem modelIds_nodup (calls : List (Nat × Command)) : (modelIds calls).Nodup :=
  (List.Nodup.map modelId_injective List.nodup_range').sublist (createdIds_sublist 1 (creations calls))

theorem next_not_mem_modelIds (calls : List (Nat × Command)) :
    modelId ((creations calls).length + 1) ∉ modelIds calls := by
  intro hmem
  obtain ⟨n, hn, heq⟩ := List.mem_map.1 ((createdIds_sublist 1 _).subset hmem)
  have hlast := (List.mem_range'_1.1 hn).2
  have hnext := modelId_injective heq
  omega

/-! ## What trainings make of a model -/

/-- The model has a version and the records for each of the batches it was trained on, and is rated by
the last one. -/
structure IsTrainedOn (default : Quantity) (batches : List (List (Slot LearningRecord)))
    (m : LearningModel) : Prop where
  version : m.version = 1 + batches.length
  trainingData : m.trainingData = batches.flatten
  samples : m.feedbackSamples = (batches.getLast?.map fun batch => (feedbackOf batch).length).getD 0
  accuracy : m.accuracy = batches.getLast?.map fun batch => clampUnit (accuracyOf default batch)
  confidence : m.confidence = m.accuracy.map fun x => least 0.9 (x + 0.1)

theorem isTrainedOn_newModel (n : Nat) (type : Value) (parameters : Entries) (now : Nat) :
    IsTrainedOn default [] (newModel n type parameters now) := ⟨rfl, rfl, rfl, rfl, rfl⟩

theorem IsTrainedOn.next {batches : List (List (Slot LearningRecord))} {m : LearningModel}
    (h : IsTrainedOn default batches m) (batch : List (Slot LearningRecord)) (now : Nat) :
    IsTrainedOn default (batches ++ [batch]) (trained default batch now m) := by
  refine ⟨?_, ?_, ?_, ?_, rfl⟩
  · show m.version + 1 = _
    rw [h.version, List.length_append]
    rfl
  · show m.trainingData ++ batch = _
    rw [h.trainingData, List.flatten_append, List.flatten_singleton]
  · rw [List.getLast?_concat]
    rfl
  · rw [List.getLast?_concat]
    rfl

theorem batchesOf_concat_self (log : List Training) (t : Training) :
    batchesOf (log ++ [t]) t.model = batchesOf log t.model ++ [t.batch] := by
  simp [batchesOf, List.filter_append]

theorem batchesOf_concat_of_ne {t : Training} {id : String} (h : t.model ≠ id) :
    batchesOf (log ++ [t]) id = batchesOf log id := by
  simp [batchesOf, List.filter_append, h]

theorem batchesOf_of_not_mem {id : String} (h : ∀ t ∈ log, t.model ≠ id) : batchesOf log id = [] := by
  unfold batchesOf
  rw [List.map_eq_nil_iff, List.filter_eq_nil_iff]
  simpa using h

/-! ## Single calls -/

/-- The models are those that were created, each as its trainings have made it. -/
structure Grown (default : Quantity) (calls : List (Nat × Command)) (log : List Training)
    (l : Learner) : Prop where
  count : l.modelCount = (creations calls).length
  keys : l.models.keys = modelIds calls
  logged : ∀ t ∈ log, t.model ∈ l.models.keys
  models : ∀ id m, l.models.lookup? id = some m →
    m.id = id ∧ IsTrainedOn default (batchesOf log id) m

theorem Grown.congr (h : Grown default calls log l) (hcreations : creations (calls ++ [call]) = creations calls)
    (hmodels : l'.models = l.models) (hcount : l'.modelCount = l.modelCount) :
    Grown default (calls ++ [call]) log l' := by
  obtain ⟨hn, hkeys, hlogged, hall⟩ := h
  unfold modelIds at hkeys
  refine ⟨?_, ?_, ?_, ?_⟩
  · rw [hcreations, hcount, hn]
  · unfold modelIds
    rw [hcreations, hmodels, hkeys]
  · rwa [hmodels]
  · rwa [hmodels]

theorem Grown.create (h : Grown default calls log l) (now : Nat) (type parameters : Value) :
    Grown default (calls ++ [(now, .createModel type parameters)]) log
      ((createModel type parameters).runOn l).2 := by
  obtain ⟨hcount, hkeys, hlogged, hall⟩ := h
  have hcreations : creations (calls ++ [(now, .createModel type parameters)]) =
      creations calls ++ [parameters] := creations_append _ _
  have hids : modelIds (calls ++ [(now, .createModel type parameters)]) = modelIds calls ++
      if parameters.toMapOrEmpty.isOk then [modelId ((creations calls).length + 1)] else [] := by
    rw [modelIds_append, Nat.add_comm 1]
    rfl
  have hlength : l.modelCount + 1 =
      (creations (calls ++ [(now, .createModel type parameters)])).length := by
    rw [hcreations, List.length_append, hcount]
    rfl
  rw [createModel_runOn]
  cases hread : parameters.toMapOrEmpty with
  | error f =>
    refine ⟨hlength, ?_, hlogged, hall⟩
    rw [hids, hread]
    exact hkeys.trans (List.append_nil _).symm
  | ok ps =>
    have hnew : modelId (l.modelCount + 1) ∉ l.models.keys := by
      rw [hcount, hkeys]
      exact next_not_mem_modelIds calls
    have hput : (l.models.put (modelId (l.modelCount + 1))
          (newModel (l.modelCount + 1) type ps l.now)).keys =
        l.models.keys ++ [modelId (l.modelCount + 1)] := by
      rw [Table.put_of_not_mem (Key.sharp_string _) hnew, Table.keys_append]
      rfl
    refine ⟨hlength, ?_, ?_, ?_⟩
    · dsimp only
      rw [hput, hids, hread, hkeys, hcount]
      rfl
    · dsimp only
      rw [hput]
      exact fun t ht => List.mem_append_left _ (hlogged t ht)
    · intro id m hm
      dsimp only at hm
      by_cases hid : id = modelId (l.modelCount + 1)
      · rw [hid, Table.lookup?_put_self (Key.sharp_string _), Option.some.injEq] at hm
        have hfresh : batchesOf log id = [] :=
          batchesOf_of_not_mem fun t ht heq => hnew (hid ▸ heq ▸ hlogged t ht)
        rw [hfresh, ← hm, hid]
        exact ⟨rfl, isTrainedOn_newModel _ _ _ _⟩
      · rw [Table.lookup?_put_of_ne (Key.sharp_string _) (Key.sharp_string _) hid] at hm
        exact hall id m hm

/-- Where the model of a training is put back, it has one more batch, and no other model changes. -/
theorem Grown.put (h : Grown default calls log l) {m : LearningModel}
    (hcreations : creations (calls ++ [call]) = creations calls)
    (hlookup : l.models.lookup? m.id = some m) (batch : List (Slot LearningRecord)) :
    Grown default (calls ++ [call]) (log ++ [⟨m.id, batch⟩])
      { l with models := l.models.put m.id (trained default batch l.now m) } := by
  obtain ⟨hcount, hkeys, hlogged, hall⟩ := h
  have hsharp : ∀ s : String, Key.Sharp s := Key.sharp_string
  have hmem : m.id ∈ l.models.keys := by
    by_contra hnot
    exact Option.some_ne_none m (hlookup.symm.trans ((Table.lookup?_eq_none (hsharp m.id)).2 hnot))
  have hput : (l.models.put m.id (trained default batch l.now m)).keys = l.models.keys :=
    Table.keys_put_of_mem (hsharp m.id) hmem
  unfold modelIds at hkeys
  refine ⟨?_, ?_, fun t ht => ?_, fun id m' hm' => ?_⟩
  · rw [hcreations]
    exact hcount
  · unfold modelIds
    rw [hcreations]
    exact hput.trans hkeys
  · show t.model ∈ (l.models.put m.id (trained default batch l.now m)).keys
    rw [hput]
    obtain ht | ht := List.mem_append.1 ht
    · exact hlogged t ht
    · rw [List.mem_singleton.1 ht]
      exact hmem
  · change (l.models.put m.id (trained default batch l.now m)).lookup? id = some m' at hm'
    by_cases hid : id = m.id
    · rw [hid, Table.lookup?_put_self (hsharp m.id), Option.some.injEq] at hm'
      rw [hid, batchesOf_concat_self log ⟨m.id, batch⟩, ← hm']
      exact ⟨rfl, (hall m.id m hlookup).2.next batch l.now⟩
    · rw [Table.lookup?_put_of_ne (hsharp m.id) (hsharp id) hid] at hm'
      rw [batchesOf_concat_of_ne fun heq => hid heq.symm]
      exact hall id m' hm'

theorem training?_of_error {id data : Value} {f : Fault}
    (hrun : (trainModel id data).runOn l = (.error f, l)) :
    l.training? (.trainModel id data) = none := by
  unfold training?
  split
  · rename_i heq
    cases heq
    rw [hrun]
  · rfl

/-- A model that is trained gets one more batch; a training that stops changes nothing. -/
theorem Grown.train (h : Grown default calls log l) (now : Nat)
    (hdefault : l.config.defaultAccuracy.quantity = .ok default) (id : Value) {data : Value}
    (hdata : IsBatch data) :
    Grown default (calls ++ [(now, .trainModel id data)])
      (log ++ (l.training? (.trainModel id data)).toList)
      ((trainModel id data).runOn l).2 := by
  have hcreations : creations (calls ++ [(now, .trainModel id data)]) = creations calls :=
    (creations_append _ _).trans (List.append_nil _)
  have hrun := trainModel_runOn hdefault hdata id
  have hrefused {f : Fault} (hrun : (trainModel id data).runOn l = (.error f, l)) :
      Grown default (calls ++ [(now, .trainModel id data)])
        (log ++ (l.training? (.trainModel id data)).toList) ((trainModel id data).runOn l).2 := by
    rw [training?_of_error hrun, hrun, Option.toList_none, List.append_nil]
    exact h.congr hcreations rfl rfl
  cases hbatch : readBatch data with
  | error f => exact hrefused (by rw [hrun, hbatch])
  | ok batch =>
    cases hfound : l.model? id with
    | error f => exact hrefused (by rw [hrun, hbatch, hfound])
    | ok found =>
      cases found with
      | none => exact hrefused (by rw [hrun, hbatch, hfound])
      | some m =>
        obtain ⟨s, rfl, hlookup⟩ := model?_eq_ok.1 hfound
        obtain ⟨rfl, -⟩ := h.models s m hlookup
        rw [hbatch, hfound] at hrun
        dsimp only at hrun
        have hsome : l.training? (.trainModel (.text m.id) data) = some ⟨m.id, batch⟩ := by
          simp only [training?, hrun, hbatch]
        rw [hsome, hrun, Option.toList_some]
        exact h.put hcreations hlookup batch

/-- **One more call.** The models are those that were created and trained, whatever the call is. -/
theorem Grown.step (h : Grown default calls log l) (now : Nat)
    (hdefault : l.config.defaultAccuracy.quantity = .ok default) {c : Command} (hc : c.HasBatch) :
    Grown default (calls ++ [(now, c)]) (log ++ (l.training? c).toList)
      ((perform c).runOn l).2 := by
  have hother (hcreate : ∀ type parameters, c ≠ .createModel type parameters)
      (htrain : ∀ id data, c ≠ .trainModel id data) :
      Grown default (calls ++ [(now, c)]) (log ++ (l.training? c).toList)
        ((perform c).runOn l).2 := by
    have hkept : Keeps (fun l' => l'.models = l.models ∧ l'.modelCount = l.modelCount) (perform c) :=
      perform_keepsModels (fun _ _ _ hmodels hcount h => ⟨hmodels.trans h.1, hcount.trans h.2⟩)
        (fun type parameters hc => absurd hc (hcreate type parameters))
        fun id data hc => absurd hc (htrain id data)
    obtain ⟨hmodels, hcount⟩ := hkept l ⟨rfl, rfl⟩
    have hnone : l.training? c = none := by
      unfold training?
      split
      · exact absurd rfl (htrain _ _)
      · rfl
    have hcreations : creations (calls ++ [(now, c)]) = creations calls := by
      rw [creations_append]
      cases c with
      | createModel type parameters => exact absurd rfl (hcreate type parameters)
      | _ => exact List.append_nil _
    rw [hnone, Option.toList_none, List.append_nil]
    exact h.congr hcreations hmodels hcount
  cases c with
  | createModel type parameters =>
    have hrun : ((perform (.createModel type parameters)).runOn l).2 =
        ((createModel type parameters).runOn l).2 :=
      runOn_bind_snd (fun _ _ => rfl) _
    rw [hrun]
    exact (List.append_nil log).symm ▸ h.create now type parameters
  | trainModel id data =>
    have hrun : ((perform (.trainModel id data)).runOn l).2 =
        ((trainModel id data).runOn l).2 := runOn_bind_snd (fun _ _ => rfl) _
    rw [hrun]
    exact h.train now hdefault id hc
  | _ => exact hother nofun nofun

/-! ## Runs -/

/-- After any calls the models are those that were created, each as its trainings have made it. -/
theorem after_grown (hdefault : config.defaultAccuracy.quantity = .ok default)
    (hcalls : ∀ call ∈ calls, call.2.HasBatch) :
    Grown default calls (trainings (start config) calls) (after config calls) := by
  induction calls using List.reverseRecOn with
  | nil => exact ⟨rfl, rfl, List.forall_mem_nil _, nofun⟩
  | append_singleton calls call ih =>
    have hcall : call.2.HasBatch := hcalls call (by simp)
    have hgrown := ih fun c hc => hcalls c (by simp [hc])
    rw [after_concat, trainings_concat]
    have hclock : Grown default calls (trainings (start config) calls)
        { after config calls with now := call.1 } :=
      ⟨hgrown.count, hgrown.keys, hgrown.logged, hgrown.models⟩
    exact hclock.step call.1 ((after_config config calls).symm ▸ hdefault) hcall

theorem accuracyOf_beq_shareOf {batch : List (Slot LearningRecord)} (hne : feedbackOf batch ≠ [])
    (hlen : (feedbackOf batch).length < 2 ^ 53) :
    (clampUnit (accuracyOf default batch) == shareOf (feedbackOf batch)) = true := by
  have hshare := inUnit_shareOf hne hlen
  have hempty : (feedbackOf batch).isEmpty = false := List.isEmpty_eq_false_iff.2 hne
  unfold accuracyOf
  rw [hempty, if_neg Bool.false_ne_true]
  exact hshare.clampUnit_beq

/-- A training returns exactly when the batch can be read and the model is there. -/
theorem trainModel_returns_iff (hdefault : l.config.defaultAccuracy.quantity = .ok default)
    {id data : Value} (hdata : IsBatch data) :
    Except.Returns ((trainModel id data).runOn l).1 ↔
      Except.Returns (readBatch data) ∧ ∃ s, id = .text s ∧ s ∈ l.models.keys := by
  have hfound : (∃ s, id = .text s ∧ s ∈ l.models.keys) ↔ ∃ m, l.model? id = .ok (some m) := by
    simp only [model?_eq_ok]
    constructor
    · rintro ⟨s, rfl, hs⟩
      cases hlookup : l.models.lookup? s with
      | none => exact absurd hs ((Table.lookup?_eq_none (Key.sharp_string s)).1 hlookup)
      | some m => exact ⟨m, s, rfl, hlookup⟩
    · rintro ⟨m, s, rfl, hlookup⟩
      refine ⟨s, rfl, ?_⟩
      by_contra hs
      rw [(Table.lookup?_eq_none (Key.sharp_string s)).2 hs] at hlookup
      cases hlookup
  rw [hfound, trainModel_runOn hdefault hdata]
  unfold Except.Returns
  cases readBatch data with
  | error f => simp
  | ok batch =>
    cases l.model? id with
    | error f => simp
    | ok found => cases found <;> simp

theorem trainModel_eq_ok (hdefault : l.config.defaultAccuracy.quantity = .ok default)
    {id data : Value} (hdata : IsBatch data) {m : LearningModel}
    (hids : ∀ s m, l.models.lookup? s = some m → m.id = s)
    (h : (trainModel id data).runOn l = (.ok m, l')) :
    id = .text m.id ∧ ∀ other, other ≠ m.id → l'.models.lookup? other = l.models.lookup? other := by
  rw [trainModel_runOn hdefault hdata] at h
  split at h
  · cases h
  · cases h
  · cases h
  · rename_i batch found hbatch hfound
    cases h
    obtain ⟨s, rfl, hlookup⟩ := model?_eq_ok.1 hfound
    refine ⟨congrArg Value.text (hids s found hlookup).symm, fun other hother => ?_⟩
    exact Table.lookup?_put_of_ne (Key.sharp_string _) (Key.sharp_string _) hother _ _

theorem trainModel_eq_error (hdefault : l.config.defaultAccuracy.quantity = .ok default)
    {id data : Value} (hdata : IsBatch data) {f : Fault}
    (h : (trainModel id data).runOn l = (.error f, l')) : l' = l := by
  rw [trainModel_runOn hdefault hdata] at h
  split at h <;> cases h <;> rfl

/-- **The life of models.** Where the default accuracy is a number and models are trained on batches
of records: after any calls the models are those that were created, under numbers that count the
creations, and each is what the trainings under its id that returned have made of it. A share of
feedback is the accuracy as it is, and the default after it is moved into the unit interval. One more
training returns exactly when its batch can be read and its model is there; it changes no other model
then, and else nothing. -/
theorem after_models (hdefault : config.defaultAccuracy.quantity = .ok default)
    (hcalls : ∀ call ∈ calls, call.2.HasBatch) :
    let l := after config calls
    l.models.keys = modelIds calls ∧ (modelIds calls).Nodup ∧
    (∀ more, modelIds calls <+: modelIds (calls ++ more)) ∧
    ((∀ p ∈ creations calls, p.toMapOrEmpty.isOk = true) →
      modelIds calls = (List.range' 1 (creations calls).length).map modelId) ∧
    (∀ id m, l.models.lookup? id = some m →
      m.id = id ∧ IsTrainedOn default (batchesOf (trainings (start config) calls) id) m) ∧
    (∀ batch, feedbackOf batch ≠ [] → (feedbackOf batch).length < 2 ^ 53 →
      (clampUnit (accuracyOf default batch) == shareOf (feedbackOf batch)) = true) ∧
    ∀ now id data, IsBatch data → ∀ outcome l',
      (trainModel id data).runOn { l with now } = (outcome, l') →
        (Except.Returns outcome ↔
          Except.Returns (readBatch data) ∧ ∃ s, id = .text s ∧ s ∈ l.models.keys) ∧
        (∀ m, outcome = .ok m → id = .text m.id ∧
          ∀ other, other ≠ m.id → l'.models.lookup? other = l.models.lookup? other) ∧
        ∀ f, outcome = .error f → l'.models = l.models := by
  intro l
  obtain ⟨-, hkeys, -, hmodels⟩ := after_grown hdefault hcalls
  refine ⟨hkeys, modelIds_nodup calls, fun more => ?_, createdIds_eq 1, hmodels,
    fun batch => accuracyOf_beq_shareOf, ?_⟩
  · rw [modelIds_append]
    exact List.prefix_append _ _
  · intro now id data hdata outcome l' hrun
    have hdefault' : (l.config.defaultAccuracy).quantity = .ok default :=
      (after_config config calls).symm ▸ hdefault
    refine ⟨?_, ?_, ?_⟩
    · rw [← trainModel_returns_iff (l := { l with now }) hdefault' hdata, hrun]
    · rintro m rfl
      exact trainModel_eq_ok (l := { l with now }) hdefault' hdata
        (fun s m hm => (hmodels s m hm).1) hrun
    · rintro f rfl
      rw [trainModel_eq_error (l := { l with now }) hdefault' hdata hrun]

/-- A model is trained twice, and in between a model that is not there. -/
theorem after_models_twice :
    let liked := Value.record [("type", .text "supervised"),
      ("feedback", .record [("rating", .int 5), ("helpful", .bool true)])]
    let calls := [(0, .createModel (.text "classifier") .null),
      (1, .trainModel (.text "model_1") (.list [liked, liked])),
      (2, .trainModel (.text "model_404") (.list [liked])),
      (3, .trainModel (.text "model_1") (.list []))]
    (after {} calls).models.keys = ["model_1"] ∧
      ((after {} calls).models.lookup? "model_1").map (fun m => (m.version, m.accuracy)) =
        some (3, some 0.5) ∧
      ∀ m, (after {} calls).models.lookup? "model_1" = some m →
        IsTrainedOn (.float 0.5) (batchesOf (trainings (start {}) calls) "model_1") m := by
  intro liked calls
  have hlikes (n : Nat) : IsBatch (.list (List.replicate n liked)) := by
    rintro items ⟨⟩ v hv
    rw [List.eq_of_mem_replicate hv]
    exact ⟨_, rfl, .inr ⟨_, rfl⟩⟩
  have hcalls : ∀ call ∈ calls, call.2.HasBatch := by
    simp only [calls, List.forall_mem_cons]
    exact ⟨trivial, hlikes 2, hlikes 1, hlikes 0, List.forall_mem_nil _⟩
  have hdefault : ({} : LearningConfig).defaultAccuracy.quantity = .ok (.float 0.5) := rfl
  obtain ⟨hkeys, -, -, -, hmodels, -⟩ := after_models hdefault hcalls
  refine ⟨hkeys, by decide +kernel, fun m hm => (hmodels "model_1" m hm).2⟩

/-- What the life of models depends on: a default accuracy of two is moved to one, a batch with a
member that is no record stops the training after the model has changed, and a creation whose
parameters are no map takes a number. -/
theorem models_of_odd_calls :
    let create := Command.createModel (.text "classifier") .null
    let number := Value.list [.int 5]
    ((after { defaultAccuracy := .float 2 }
        [(0, create), (1, .trainModel (.text "model_1") (.list []))]).models.lookup? "model_1").map
      (fun m => (m.accuracy, m.confidence)) = some (some 1, some 0.9) ∧
    ((trainModel (.text "model_1") number).runOn (after {} [(0, create)])).1.isOk = false ∧
    ((after {} [(0, create), (1, .trainModel (.text "model_1") number)]).models.lookup?
      "model_1").map (fun m => (m.version, m.trainingData.length)) = some (2, 1) ∧
    (after {} [(0, .createModel (.text "classifier") (.int 5)), (1, create)]).models.keys =
      ["model_2"] := by
  decide +kernel

end KnowledgeGraph.Learner
