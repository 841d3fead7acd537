import KnowledgeGraph.Proofs.Atom.Deep
import KnowledgeGraph.Proofs.Learning.Models

/-!
# Trainings that fail

A training extends its model by the batch first and rates it then. What the rating needs can be told
from the batch (`CanRate`): its members are records whose feedback is null or a map, and without any
feedback the default accuracy is a number. A training that stops changes nothing if the batch can be
rated, if it cannot be read, or if the model is not there. In the one other case it stops between its
two steps, and leaves the model with the new records and a new version under the old rating
(`after_failedTraining`).
-/

namespace KnowledgeGraph.Learner

open Attempt

/-! ## What a batch is rated by -/

/-- Some member is a record with feedback that is a map. -/
def HasFeedback (data : Value) : Prop :=
  ∃ items es fs, data.members = .ok items ∧ Value.map es ∈ items ∧
    Entries.field es "feedback" = .map fs

/-- What the rating by a batch needs: its members are records whose feedback is null or a map, and
where none has feedback the default accuracy is a number. -/
def CanRate (config : LearningConfig) (data : Value) : Prop :=
  IsBatch data ∧ (HasFeedback data ∨ ∃ q, config.defaultAccuracy.quantity = .ok q)

variable {config : LearningConfig} {data : Value} {batch : List (Slot LearningRecord)}

theorem mem_feedbackOf {f : Feedback} :
    f ∈ feedbackOf batch ↔ ∃ r, .known r ∈ batch ∧ r.feedback = .known f := by
  unfold feedbackOf
  rw [Slot.mem_knowns, List.mem_map]
  simp only [Slot.mem_knowns]

/-- Whether a value has feedback can be told from the members that were read. -/
theorem hasFeedback_iff (h : readBatch data = .ok batch) :
    HasFeedback data ↔ feedbackOf batch ≠ [] := by
  obtain ⟨items, hitems, h⟩ := Except.bind_eq_ok.1 h
  constructor
  · rintro ⟨_, es, fs, hitems', hes, hfs⟩
    cases hitems.symm.trans hitems'
    obtain ⟨slot, hslot, hread⟩ := Except.exists_target_of_mapM_eq_ok h hes
    obtain ⟨r, rfl⟩ := (readSlot_spec hread).2.2 ⟨es, rfl⟩
    obtain ⟨_, heq, hr⟩ := readSlot_eq_known hread
    cases heq
    obtain ⟨_, heq, hfeedback, -⟩ := ofRecord_slots hr
    cases heq
    obtain ⟨f, hf⟩ := (readSlot_spec hfeedback).2.2 ⟨fs, hfs⟩
    exact List.ne_nil_of_mem (mem_feedbackOf.2 ⟨r, hslot, hf⟩)
  · intro hne
    obtain ⟨f, hf⟩ := List.exists_mem_of_ne_nil _ hne
    obtain ⟨r, hr, hf⟩ := mem_feedbackOf.1 hf
    obtain ⟨v, hv, hread⟩ := Except.exists_source_of_mapM_eq_ok h hr
    obtain ⟨es, rfl, hrecord⟩ := readSlot_eq_known hread
    obtain ⟨_, heq, hfeedback, -⟩ := ofRecord_slots hrecord
    cases heq
    obtain ⟨fs, hfs⟩ := (readSlot_spec hfeedback).2.1 ⟨f, hf⟩
    exact ⟨items, es, fs, hitems, hv, hfs⟩

/-! ## When a batch is rated -/

theorem Slot.eq_empty_of_isEmpty {α : Type} {slot : Slot α} (h : slot.isEmpty = true) :
    slot = .empty := by
  unfold Slot.isEmpty at h
  split at h
  · rfl
  · cases h

/-- Where a rating comes out well, all members are records, with feedback that is known or missing. -/
theorem isRated_of_returns (h : Except.Returns (verdict config batch)) :
    ∀ slot ∈ batch, IsRated slot := by
  obtain ⟨ratings, hratings, h⟩ := h.of_bind
  obtain ⟨share, hshare, -⟩ := h.of_bind
  obtain ⟨feedback, hfeedback, hratings⟩ := Except.bind_eq_ok.1 hratings
  cases hratings
  intro slot hslot
  obtain ⟨given, hgiven, hr⟩ := Except.exists_target_of_mapM_eq_ok hfeedback hslot
  obtain ⟨r, hget, hr⟩ := Except.bind_eq_ok.1 hr
  cases hr
  refine ⟨r, Slot.get_eq_ok.1 hget, ?_⟩
  cases hempty : r.feedback.isEmpty with
  | true => exact .inl (Slot.eq_empty_of_isEmpty hempty)
  | false =>
    have hrating : r.feedback ∈ feedback.filter fun f => !f.isEmpty :=
      List.mem_filter.2 ⟨hgiven, by rw [hempty]; rfl⟩
    unfold LearningModel.helpfulShare at hshare
    rw [if_neg fun hnil => List.ne_nil_of_mem hrating (List.isEmpty_iff.1 hnil)] at hshare
    obtain ⟨known, hknown, -⟩ := Except.bind_eq_ok.1 hshare
    obtain ⟨f, hf⟩ := Except.exists_of_mapM_eq_ok hknown hrating
    exact .inr ⟨f, Slot.get_eq_ok.1 hf⟩

/-- **Ratings.** A batch that was read is rated exactly if it has what its rating needs. -/
theorem returns_verdict_iff (h : readBatch data = .ok batch) :
    Except.Returns (verdict config batch) ↔ CanRate config data := by
  unfold CanRate
  rw [isBatch_iff h, hasFeedback_iff h]
  constructor
  · intro hreturns
    have hbatch := isRated_of_returns hreturns
    refine ⟨hbatch, ?_⟩
    by_cases hnil : feedbackOf batch = []
    · obtain ⟨_, hratings, hreturns⟩ := hreturns.of_bind
      obtain ⟨_, hshare, -⟩ := hreturns.of_bind
      rw [ratings_eq hbatch, hnil] at hratings
      cases hratings
      obtain ⟨q, hq, -⟩ := Except.bind_eq_ok.1 hshare
      exact .inr ⟨q, hq⟩
    · exact .inl hnil
  · rintro ⟨hbatch, hdefault⟩
    unfold verdict
    rw [ratings_eq hbatch, Except.ok_bind]
    obtain hne | ⟨q, hq⟩ := hdefault
    · unfold LearningModel.helpfulShare
      rw [if_neg (by simpa using hne), mapM_get_known]
      exact Except.returns_ok _
    · rw [helpfulShare_eq hq]
      exact Except.returns_ok _

/-! ## Models under their ids -/

/-- Every model is kept under its id. -/
def IsKeyed (l : Learner) : Prop := ∀ id m, l.models.lookup? id = some m → m.id = id

variable {l : Learner} {m : LearningModel} {id : Value}

theorem isKeyed_put (hl : l.IsKeyed) (m : LearningModel) :
    IsKeyed { l with models := l.models.put m.id m } := by
  intro id m' hm'
  change (l.models.put m.id m).lookup? id = some m' at hm'
  by_cases hid : id = m.id
  · rw [hid, Table.lookup?_put_self (Key.sharp_string _), Option.some.injEq] at hm'
    rw [← hm', hid]
  · rw [Table.lookup?_put_of_ne (Key.sharp_string _) (Key.sharp_string _) hid] at hm'
    exact hl id m' hm'

theorem createModel_keepsKeyed (type parameters : Value) :
    Keeps IsKeyed (createModel type parameters) := by
  intro l hl
  rw [createModel_runOn]
  cases parameters.toMapOrEmpty with
  | error f => exact hl
  | ok ps => exact isKeyed_put hl (newModel (l.modelCount + 1) type ps l.now)

theorem trainModel_keepsKeyed (id data : Value) : Keeps IsKeyed (trainModel id data) := by
  intro l hl
  rw [trainModel_outcome]
  cases readBatch data with
  | error f => exact hl
  | ok batch =>
    cases l.model? id with
    | error f => exact hl
    | ok found =>
      cases found with
      | none => exact hl
      | some m =>
        dsimp only
        cases verdict l.config batch with
        | error f => exact isKeyed_put hl (m.extend batch)
        | ok v => exact isKeyed_put hl ((m.extend batch).rate v.1 v.2 l.now)

theorem after_isKeyed (config : LearningConfig) (calls : List (Nat × Command)) :
    (after config calls).IsKeyed :=
  after_keeps nofun (fun _ _ hl => hl) fun _ _ =>
    perform_keepsModels (fun _ _ _ hmodels _ hl id m hm => hl id m (hmodels ▸ hm))
      (fun type parameters _ => createModel_keepsKeyed type parameters)
      fun id data _ => trainModel_keepsKeyed id data

theorem IsKeyed.lookup? (hl : l.IsKeyed) (h : l.model? id = .ok (some m)) :
    l.models.lookup? m.id = some m := by
  obtain ⟨s, -, hm⟩ := model?_eq_ok.1 h
  rw [hl s m hm]
  exact hm

/-! ## Failures -/

/-- The training would find its model and read its batch, but the batch cannot be rated. -/
structure Tears (l : Learner) (id data : Value) (m : LearningModel)
    (batch : List (Slot LearningRecord)) : Prop where
  model : l.model? id = .ok (some m)
  batch : readBatch data = .ok batch
  unrated : ¬ CanRate l.config data

/-- Such a training stops after the model has changed. -/
theorem Tears.runOn (h : l.Tears id data m batch) :
    ∃ f, (trainModel id data).runOn l =
      (.error f, { l with models := l.models.put m.id (m.extend batch) }) := by
  have hstops : ¬ Except.Returns (verdict l.config batch) :=
    fun hreturns => h.unrated ((returns_verdict_iff h.batch).1 hreturns)
  rw [trainModel_outcome, h.model, h.batch]
  dsimp only
  cases hverdict : verdict l.config batch with
  | error f => exact ⟨f, rfl⟩
  | ok v => exact absurd ⟨v, hverdict⟩ hstops

/-- Any other training that stops does so before anything changes. -/
theorem eq_of_trainModel_error (h : ∀ m batch, ¬ l.Tears id data m batch) {f : Fault}
    (hf : ((trainModel id data).runOn l).1 = .error f) : ((trainModel id data).runOn l).2 = l := by
  rw [trainModel_outcome] at hf ⊢
  cases hbatch : readBatch data with
  | error f => rfl
  | ok batch =>
    cases hfound : l.model? id with
    | error f => rfl
    | ok found =>
      cases found with
      | none => rfl
      | some m =>
        have hcan : CanRate l.config data := by
          by_contra hcannot
          exact h m batch ⟨hfound, hbatch, hcannot⟩
        obtain ⟨v, hv⟩ := (returns_verdict_iff hbatch).2 hcan
        rw [hbatch, hfound] at hf
        simp only [hv, reduceCtorEq] at hf

/-- **Failed trainings.** After any calls, a training that stops leaves everything as it was, unless
it finds its model and reads its batch, and the batch cannot be rated. Then it does stop, and the
model has the records of the batch and one more version, with its rating and the time of it as they
were; all other models stay. -/
theorem after_failedTraining (config : LearningConfig) (calls : List (Nat × Command)) (now : Nat)
    (id data : Value) :
    let l := { after config calls with now }
    let run := (trainModel id data).runOn l
    (∀ f, run.1 = .error f → (∀ m batch, ¬ l.Tears id data m batch) → run.2 = l) ∧
    ∀ m batch, l.Tears id data m batch →
      (∃ f, run.1 = .error f) ∧ l.models.lookup? m.id = some m ∧
        run.2 = { l with models := l.models.put m.id (m.extend batch) } ∧ run.2.models ≠ l.models := by
  intro l run
  refine ⟨fun f hf hwhole => eq_of_trainModel_error hwhole hf, fun m batch htears => ?_⟩
  have hkeyed : l.IsKeyed := after_isKeyed config calls
  have hfound : l.models.lookup? m.id = some m := hkeyed.lookup? htears.model
  obtain ⟨f, hrun⟩ := htears.runOn
  have hrun : run = (.error f, { l with models := l.models.put m.id (m.extend batch) }) := hrun
  rw [hrun]
  refine ⟨⟨f, rfl⟩, hfound, rfl, fun hsame => ?_⟩
  have hextended : l.models.lookup? m.id = some (m.extend batch) := by
    rw [← hsame]
    exact Table.lookup?_put_self (Key.sharp_string m.id) l.models (m.extend batch)
  rw [hfound, Option.some.injEq] at hextended
  have hversion : m.version = m.version + 1 := congrArg LearningModel.version hextended
  omega

/-- A record whose feedback is a text is learned from, but not rated. -/
theorem after_failedTraining_text :
    let l := { after {} [(0, .createModel (.text "classifier") .null)] with now := 1 }
    let data := Value.list [.record [("type", .text "custom"), ("feedback", .text "good")]]
    let run := (trainModel (.text "model_1") data).runOn l
    (∃ m batch, l.Tears (.text "model_1") data m batch) ∧ run.1.isOk = false ∧
      (l.models.lookup? "model_1").map (fun m => (m.version, m.trainingData.length)) = some (1, 0) ∧
      (run.2.models.lookup? "model_1").map (fun m => (m.version, m.trainingData.length)) =
        some (2, 1) := by
  intro l data run
  have hcannot : ¬ CanRate l.config data := by
    rintro ⟨hdata, -⟩
    obtain ⟨es, heq, hfeedback⟩ := hdata _ rfl _ List.mem_cons_self
    cases heq
    obtain hfeedback | ⟨fs, hfeedback⟩ := hfeedback <;> cases hfeedback
  have htears : l.Tears (.text "model_1") data (newModel 1 (.text "classifier") [] 0)
      [.known { type := "custom", feedback := .raw (.text "good") }] := ⟨rfl, rfl, hcannot⟩
  obtain ⟨-, htorn⟩ :=
    after_failedTraining {} [(0, .createModel (.text "classifier") .null)] 1 (.text "model_1") data
  obtain ⟨⟨f, hf⟩, hbefore, hafter, -⟩ := htorn _ _ htears
  have hf : run.1 = .error f := hf
  have hafter : run.2 = _ := hafter
  refine ⟨⟨_, _, htears⟩, ?_, ?_, ?_⟩
  · rw [hf]
    rfl
  · rw [show l.models.lookup? "model_1" = some (newModel 1 (.text "classifier") [] 0) from hbefore]
    rfl
  · rw [hafter]
    rfl

end KnowledgeGraph.Learner
