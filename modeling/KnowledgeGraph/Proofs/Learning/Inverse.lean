import KnowledgeGraph.Learning.Record
import KnowledgeGraph.Proofs.Atom.Deep
import KnowledgeGraph.Proofs.Number
import KnowledgeGraph.Proofs.Value

/-!
# Learning records and what is written of them

A learning record whose rating is in its range and whose feedback and context are missing or known is
read again from what is written of it (`ofRecord_toRecord`). The records that are read from maps are of
this kind (`ofRecord_isWritten`), in whichever spelling the names are given. So a map that is read once
may be read, written and read any number of times (`ofRecord_comesBack`), and what is written says
under the first spelling of each name what the map says under either (`IsWritten`).
-/

namespace KnowledgeGraph

variable {es ws : Entries}

/-! ## Words -/

theorem Value.eq_label_of_find? {α : Type} {all : List α} {label : α → String} {v : Value} {a : α}
    (h : all.find? (fun a => v.isText (label a)) = some a) : v = .text (label a) :=
  isText_iff.1 (List.find?_some (p := fun a => v.isText (label a)) h)

theorem Outcome.label_of_ofValue? {v : Value} {o : Option Outcome} (h : ofValue? v = .ok o) :
    (o.map fun o => Value.text o.label).getD .null = v := by
  unfold ofValue? at h
  split at h
  · cases h
    rfl
  · split at h
    · rename_i hfound
      cases h
      exact (Value.eq_label_of_find? hfound).symm
    · cases h

theorem Outcome.ofValue?_label (o : Option Outcome) :
    ofValue? ((o.map fun o => Value.text o.label).getD .null) = .ok o := by
  obtain _ | o := o
  · rfl
  · cases o <;> rfl

theorem Priority.label_of_ofValue? {v : Value} {p : Option Priority} (h : ofValue? v = .ok p) :
    (p.map fun p => Value.text p.label).getD .null = v := by
  unfold ofValue? at h
  split at h
  · cases h
    rfl
  · split at h
    · rename_i hfound
      cases h
      exact (Value.eq_label_of_find? hfound).symm
    · cases h

theorem Priority.ofValue?_label (p : Option Priority) :
    ofValue? ((p.map fun p => Value.text p.label).getD .null) = .ok p := by
  obtain _ | p := p
  · rfl
  · cases p <;> rfl

/-! ## Names in two spellings -/

/-- What a map says under either spelling of a name, the other map says under the first. -/
def Carries (names : List (String × String)) (es ws : Entries) : Prop :=
  ∀ name ∈ names, Entries.field ws name.1 = Entries.either es name.1 name.2

theorem Value.field_of_index {name : String} {v : Value} (h : (Value.map es).index name = .ok v) :
    Entries.field es name = v := by
  unfold Value.index at h
  unfold Entries.field
  dsimp only at h
  split at h
  · rename_i hget
    cases h
    rw [hget]
    rfl
  · cases h

/-- A name that is spelled in one way only. -/
theorem Entries.either_self (es : Entries) (name : String) :
    Entries.either es name name = Entries.field es name := by
  unfold Entries.either Entries.field
  cases Entries.get? es name <;> rfl

/-! ## Feedback -/

namespace Feedback

def IsClamped (f : Feedback) : Prop := clamp 1 5 f.rating = f.rating

/-- The second map is what is written of the feedback that is read from the first. -/
structure IsWritten (es ws : Entries) : Prop where
  carries : Carries [("comment", "comment"), ("actionTaken", "action_taken"),
    ("timeSpent", "time_spent"), ("outcome", "outcome")] es ws
  rating : ∃ x, ((Entries.get? es "rating").getD (.int 3)).toFloat = .ok x ∧
    Entries.field ws "rating" = .float (clamp 1 5 x)
  helpful : Entries.field ws "helpful" = .bool !(Entries.field es "helpful").isAbsent

/-- Feedback with a rating in its range is read again from what is written of it. -/
theorem ofRecord_toValue {f : Feedback} (h : f.IsClamped) : ofRecord f.toValue = .ok f := by
  have houtcome : ofRecord f.toValue = (do
      let outcome ← Outcome.ofValue? ((f.outcome.map fun o => Value.text o.label).getD .null)
      return { f with rating := clamp 1 5 f.rating, helpful := !!f.helpful, outcome }) := rfl
  rw [houtcome, Outcome.ofValue?_label, Except.ok_bind, h, Bool.not_not]
  rfl

theorem ofRecord_isWritten {f : Feedback} (h : ofRecord (.map es) = .ok f) :
    f.IsClamped ∧ ∃ ws, f.toValue = .map ws ∧ IsWritten es ws := by
  unfold ofRecord at h
  obtain ⟨rating, hrating, h⟩ := Except.bind_eq_ok.1 h
  obtain ⟨outcome, houtcome, h⟩ := Except.bind_eq_ok.1 h
  cases h
  refine ⟨clamp_clamp 1 5 rating, _, rfl, ?_, ⟨rating, hrating, rfl⟩, rfl⟩
  have hcomment := Entries.either_self es "comment"
  have houtcome' := Entries.either_self es "outcome"
  rw [← Outcome.label_of_ofValue? houtcome] at houtcome'
  simp only [Carries, List.forall_mem_cons, hcomment, houtcome']
  exact ⟨rfl, rfl, rfl, rfl, nofun⟩

end Feedback

/-! ## Contexts -/

theorem Value.toMapOrEmpty_map (es : Entries) : (Value.map es).toMapOrEmpty = .ok es := by
  cases es <;> rfl

namespace LearningContext

/-- The second map is what is written of the context that is read from the first. -/
structure IsWritten (es ws : Entries) : Prop where
  carries : Carries [("userId", "user_id"), ("workspaceId", "workspace_id"),
    ("projectType", "project_type"), ("currentTask", "current_task"),
    ("userExperience", "user_experience")] es ws
  preferences : ∃ fs, (Entries.field es "preferences").toMapOrEmpty = .ok fs ∧
    Entries.field ws "preferences" = .map fs
  environmentInfo : ∃ fs,
    (Entries.either es "environmentInfo" "environment_info").toMapOrEmpty = .ok fs ∧
    Entries.field ws "environmentInfo" = .map fs

theorem ofRecord_toValue (c : LearningContext) : ofRecord c.toValue = .ok c := by
  have hmaps : ofRecord c.toValue = (do
      let preferences ← (Value.map c.preferences).toMapOrEmpty
      let environmentInfo ← (Value.map c.environmentInfo).toMapOrEmpty
      return { c with preferences, environmentInfo }) := rfl
  rw [hmaps, Value.toMapOrEmpty_map, Except.ok_bind, Value.toMapOrEmpty_map]
  rfl

theorem ofRecord_isWritten {c : LearningContext} (h : ofRecord (.map es) = .ok c) :
    ∃ ws, c.toValue = .map ws ∧ IsWritten es ws := by
  unfold ofRecord at h
  obtain ⟨preferences, hpreferences, h⟩ := Except.bind_eq_ok.1 h
  obtain ⟨environmentInfo, henvironment, h⟩ := Except.bind_eq_ok.1 h
  cases h
  refine ⟨_, rfl, ?_, ⟨preferences, hpreferences, rfl⟩, environmentInfo, henvironment, rfl⟩
  simp only [Carries, List.forall_mem_cons]
  exact ⟨rfl, rfl, rfl, rfl, rfl, nofun⟩

end LearningContext

/-! ## Records -/

/-- A part of a record is null in both maps, or a map in both, the second of which is written of what
is read from the first. -/
def PartIsWritten (IsWritten : Entries → Entries → Prop) (name : String) (es ws : Entries) : Prop :=
  (Entries.field es name = .null ∧ Entries.field ws name = .null) ∨
    ∃ part written, Entries.field es name = .map part ∧ Entries.field ws name = .map written ∧
      IsWritten part written

namespace LearningRecord

section Slots

variable {α : Type} {reader : Value → Except Fault α} {write : α → Value} {P : α → Prop}
  {IsWritten : Entries → Entries → Prop} {slot : Slot α} {v : Value}

theorem readSlot_writeSlot (h : slot.Fits P)
    (hread : ∀ a, P a → ∃ ws, write a = .map ws ∧ reader (.map ws) = .ok a) :
    ∃ w, Atom.writeSlot write slot = .ok w ∧ readSlot reader w = .ok slot := by
  cases h with
  | empty => exact ⟨.null, rfl, rfl⟩
  | @known a ha =>
    obtain ⟨ws, hws, hreader⟩ := hread a ha
    refine ⟨.map ws, congrArg Except.ok hws, ?_⟩
    rw [readSlot, hreader]
    rfl

/-- A null or a map is read into a slot that is written as a null or a map again. -/
theorem readSlot_isWritten (hv : v = .null ∨ ∃ es, v = .map es) (h : readSlot reader v = .ok slot)
    (hreader : ∀ es a, reader (.map es) = .ok a → P a ∧ ∃ ws, write a = .map ws ∧ IsWritten es ws) :
    slot.Fits P ∧ ∃ w, Atom.writeSlot write slot = .ok w ∧ (v = .null ∧ w = .null ∨
      ∃ part written, v = .map part ∧ w = .map written ∧ IsWritten part written) := by
  obtain rfl | ⟨es, rfl⟩ := hv
  · cases h
    exact ⟨.empty, .null, rfl, .inl ⟨rfl, rfl⟩⟩
  · obtain ⟨a, ha, h⟩ := Except.bind_eq_ok.1 h
    cases h
    obtain ⟨hP, ws, hws, hwritten⟩ := hreader es a ha
    exact ⟨.known hP, .map ws, congrArg Except.ok hws, .inr ⟨es, ws, rfl, rfl, hwritten⟩⟩

end Slots

/-- The record has a type, feedback with a rating in its range or none, and a context or none. -/
structure IsSettled (r : LearningRecord) : Prop where
  type : r.type.isEmpty = false
  feedback : r.feedback.Fits Feedback.IsClamped
  context : r.context.Fits fun _ => True

/-- The second map is what is written of the record that is read from the first. -/
structure IsWritten (es ws : Entries) : Prop where
  carries : Carries [("type", "type"), ("input", "input"), ("expectedOutput", "expected_output"),
    ("timestamp", "timestamp"), ("priority", "priority"), ("sessionId", "session_id")] es ws
  feedback : PartIsWritten Feedback.IsWritten "feedback" es ws
  context : PartIsWritten LearningContext.IsWritten "context" es ws

/-- The entries of a record with all fields. -/
def entriesOf (r : LearningRecord) (feedback context : Value) : Entries :=
  Entries.ofFields [
    ("type", .text r.type), ("input", r.input), ("expectedOutput", r.expectedOutput),
    ("feedback", feedback), ("context", context), ("timestamp", r.timestamp),
    ("priority", (r.priority.map fun p => Value.text p.label).getD .null),
    ("sessionId", r.sessionId)]

variable {r : LearningRecord} {feedback context : Value}

theorem toRecord_of_slots (hfeedback : Atom.writeSlot Feedback.toValue r.feedback = .ok feedback)
    (hcontext : Atom.writeSlot LearningContext.toValue r.context = .ok context) :
    r.toRecord = .ok (.map (r.entriesOf feedback context)) := by
  unfold toRecord
  rw [hfeedback, Except.ok_bind, hcontext]
  rfl

theorem ofRecord_entriesOf (htype : r.type.isEmpty = false)
    (hfeedback : readSlot Feedback.ofRecord feedback = .ok r.feedback)
    (hcontext : readSlot LearningContext.ofRecord context = .ok r.context) :
    ofRecord (.map (r.entriesOf feedback context)) = .ok r := by
  have hparts : ofRecord (.map (r.entriesOf feedback context)) = (do
      let feedback ← readSlot Feedback.ofRecord feedback
      let context ← readSlot LearningContext.ofRecord context
      if r.type.isEmpty then throw .recordTypeNotText
      let priority ← Priority.ofValue? ((r.priority.map fun p => Value.text p.label).getD .null)
      return { r with feedback, context, priority }) := rfl
  rw [hparts, hfeedback, Except.ok_bind, hcontext, Except.ok_bind, htype, Priority.ofValue?_label]
  rfl

theorem ofRecord_toRecord (h : r.IsSettled) :
    ∃ v, r.toRecord = .ok v ∧ ofRecord v = .ok r := by
  obtain ⟨feedback, hfeedback, hreadFeedback⟩ := readSlot_writeSlot h.feedback
    fun f hf => ⟨_, rfl, Feedback.ofRecord_toValue hf⟩
  obtain ⟨context, hcontext, hreadContext⟩ := readSlot_writeSlot h.context
    fun c _ => ⟨_, rfl, c.ofRecord_toValue⟩
  exact ⟨_, toRecord_of_slots hfeedback hcontext,
    ofRecord_entriesOf h.type hreadFeedback hreadContext⟩

/-- A map whose feedback and context are null or maps is read as a settled record, and what is written
of it says what the map says. -/
theorem ofRecord_isWritten (h : ofRecord (.map es) = .ok r)
    (hfeedback : Entries.field es "feedback" = .null ∨ ∃ fs, Entries.field es "feedback" = .map fs)
    (hcontext : Entries.field es "context" = .null ∨ ∃ fs, Entries.field es "context" = .map fs) :
    r.IsSettled ∧ ∃ ws, r.toRecord = .ok (.map ws) ∧ IsWritten es ws := by
  unfold ofRecord at h
  obtain ⟨type, htype, h⟩ := Except.bind_eq_ok.1 h
  obtain ⟨feedback, hreadFeedback, h⟩ := Except.bind_eq_ok.1 h
  obtain ⟨context, hreadContext, h⟩ := Except.bind_eq_ok.1 h
  split at h
  · split at h
    · cases h
    · rename_i hempty
      obtain ⟨priority, hpriority, h⟩ := Except.bind_eq_ok.1 h
      cases h
      obtain ⟨hclamped, wf, hwf, hwrittenFeedback⟩ := readSlot_isWritten hfeedback hreadFeedback
        fun _ _ => Feedback.ofRecord_isWritten
      obtain ⟨hfits, wc, hwc, hwrittenContext⟩ := readSlot_isWritten (P := fun _ => True) hcontext
        hreadContext fun _ _ hc => ⟨trivial, LearningContext.ofRecord_isWritten hc⟩
      refine ⟨⟨by simpa using hempty, hclamped, hfits⟩, _, toRecord_of_slots hwf hwc, ?_,
        hwrittenFeedback, hwrittenContext⟩
      simp only [Carries, List.forall_mem_cons, Entries.either_self,
        Value.field_of_index htype,
        ← Priority.label_of_ofValue? hpriority]
      exact ⟨rfl, rfl, rfl, rfl, rfl, rfl, nofun⟩
  · cases h

/-- **What is written comes back.** A map in either spelling that is read as a record, with feedback
and a context that are missing, null or maps, is written as a map that says the same under the first
spelling. From it the same record is read, of which the same map is written. -/
theorem ofRecord_comesBack (h : ofRecord (.map es) = .ok r)
    (hfeedback : Entries.field es "feedback" = .null ∨ ∃ fs, Entries.field es "feedback" = .map fs)
    (hcontext : Entries.field es "context" = .null ∨ ∃ fs, Entries.field es "context" = .map fs) :
    ∃ ws, r.toRecord = .ok (.map ws) ∧ IsWritten es ws ∧
      ∃ r', ofRecord (.map ws) = .ok r' ∧ r' = r ∧ r'.toRecord = .ok (.map ws) := by
  obtain ⟨hsettled, ws, hws, hwritten⟩ := ofRecord_isWritten h hfeedback hcontext
  obtain ⟨v, hv, hread⟩ := ofRecord_toRecord hsettled
  obtain rfl : Value.map ws = v := Except.ok.inj (hws.symm.trans hv)
  exact ⟨ws, hws, hwritten, r, hread, rfl, hws⟩

/-- Names in both spellings, of which the first counts even if it is null, a rating beyond its range,
and preferences that are a list of pairs. -/
theorem ofRecord_comesBack_mixed :
    let es := Entries.ofFields [("type", .text "supervised"), ("expected_output", .int 1),
      ("priority", .text "high"),
      ("feedback", .record [("rating", .float 9.5), ("helpful", .text "yes"),
        ("time_spent", .int 3), ("outcome", .text "accepted")]),
      ("context", .record [("user_id", .text "u"), ("userId", .null), ("workspace_id", .text "w"),
        ("preferences", .list [.list [.text "k", .int 1]])])]
    ∃ r ws part, ofRecord (.map es) = .ok r ∧ r.toRecord = .ok (.map ws) ∧
      ofRecord (.map ws) = .ok r ∧ Entries.field ws "expectedOutput" = .int 1 ∧
      Entries.field ws "context" = .map part ∧ Entries.field part "userId" = .null ∧
      Entries.field part "workspaceId" = .text "w" ∧
      Entries.field part "preferences" = .record [("k", .int 1)] := by
  intro es
  obtain ⟨r, hr⟩ : ∃ r, ofRecord (.map es) = .ok r := ⟨_, rfl⟩
  obtain ⟨ws, hws, hwritten, r', hread, rfl, -⟩ :=
    ofRecord_comesBack hr (.inr ⟨_, rfl⟩) (.inr ⟨_, rfl⟩)
  obtain ⟨hnull, -⟩ | ⟨part, written, hpart, hwrittenPart, hcontext⟩ := hwritten.context
  · cases hnull
  · cases hpart
    obtain ⟨fs, hfs, hpreferences⟩ := hcontext.preferences
    cases hfs
    exact ⟨r', ws, written, hr, hws, hread,
      hwritten.carries ("expectedOutput", "expected_output") (by simp), hwrittenPart,
      hcontext.carries ("userId", "user_id") (by simp),
      hcontext.carries ("workspaceId", "workspace_id") (by simp), hpreferences⟩

end LearningRecord

end KnowledgeGraph
