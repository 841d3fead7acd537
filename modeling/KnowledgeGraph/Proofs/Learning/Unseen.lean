import KnowledgeGraph.Proofs.Learning.Calls
import KnowledgeGraph.Proofs.Learning.Steps
import KnowledgeGraph.Proofs.Learning.View

/-!
# What others do

A call acts for the user that it names (`Command.actor?`), and the records of a call are of that user
(`ofRecord_user?`, `readContext_user?`). The calls of others are unseen: they leave the view of a user
as it is, also when they stop at a fault (`perform_unseen`).
-/

namespace KnowledgeGraph.Learner

open Attempt

variable {u : String} {l : Learner} {r : LearningRecord}

/-! ## Who acts -/

def contextUser? : Value → Option String
  | .map es => (Entries.either es "userId" "user_id").text?
  | _ => none

/-- A context is a map or counts as absent. -/
def IsContext (context : Value) : Prop := context.isAbsent = true ∨ ∃ es, context = .map es

/-- The user for whom a call acts. Questions and models are no one's. -/
def Command.actor? : Command → Option String
  | .learn (.map es) => contextUser? (Entries.field es "context")
  | .feedback _ context => contextUser? context
  | .adapt user _ _ => user.text?
  | .personalize user _ => user.text?
  | .behavior user _ _ => some user.display
  | _ => none

/-- The context in a call has its form. Other arguments may be any values. -/
def Command.IsFormed : Command → Prop
  | .learn record => ∀ es, record = .map es → IsContext (Entries.field es "context")
  | .feedback _ context => IsContext context
  | _ => True

theorem contextUser?_of_not_map {v : Value} (h : ∀ es, v ≠ .map es) : contextUser? v = none := by
  cases v with
  | map es => exact absurd rfl (h es)
  | scalar _ | list _ => rfl

/-- It can be told whose a record is whose context is known or absent. -/
theorem exists_userId
    (h : (∃ c, r.context = .known c) ∨ ∃ v, r.context = .raw v ∧ v.isAbsent = true) :
    ∃ w, r.userId = .ok w := by
  unfold LearningRecord.userId
  obtain ⟨c, hc⟩ | ⟨v, hv, habsent⟩ := h
  · rw [hc]
    exact ⟨_, rfl⟩
  · rw [hv, Slot.get?, if_pos habsent]
    exact ⟨_, rfl⟩

/-- A record whose context is read from a value is of the user whom the value names. -/
theorem readSlot_user? {v : Value} {slot : Slot LearningContext}
    (h : LearningRecord.readSlot LearningContext.ofRecord v = .ok slot) (hr : r.context = slot) :
    r.user? = contextUser? v ∧ (IsContext v → ∃ w, r.userId = .ok w) := by
  unfold LearningRecord.readSlot at h
  split at h
  · obtain ⟨c, hc, h⟩ := Except.bind_eq_ok.1 h
    cases h
    rw [LearningRecord.user?_known hr, (ofRecord_fields hc).1]
    exact ⟨rfl, fun _ => exists_userId (.inl ⟨c, hr⟩)⟩
  · rename_i hnomap
    cases h
    refine ⟨(LearningRecord.user?_raw hr).trans (contextUser?_of_not_map hnomap).symm, ?_⟩
    rintro (habsent | ⟨es, hes⟩)
    · exact exists_userId (.inr ⟨v, hr, habsent⟩)
    · exact absurd hes (hnomap es)

theorem readContext_user? {v : Value} {slot : Slot LearningContext}
    (h : readContext v = .ok slot) (hr : r.context = slot) :
    r.user? = contextUser? v ∧ (IsContext v → ∃ w, r.userId = .ok w) := by
  unfold readContext at h
  split at h
  · obtain ⟨c, hc, h⟩ := Except.bind_eq_ok.1 h
    cases h
    rw [LearningRecord.user?_known hr, (ofRecord_fields hc).1]
    exact ⟨rfl, fun _ => exists_userId (.inl ⟨c, hr⟩)⟩
  · rename_i hnomap
    rw [contextUser?_of_not_map hnomap]
    cases habsent : v.isAbsent with
    | true =>
      rw [habsent] at h
      cases h
      exact ⟨LearningRecord.user?_known hr, fun _ => exists_userId (.inl ⟨_, hr⟩)⟩
    | false =>
      rw [habsent] at h
      cases h
      refine ⟨LearningRecord.user?_raw hr, ?_⟩
      rintro (hv | ⟨es, hes⟩)
      · rw [habsent] at hv
        cases hv
      · exact absurd hes (hnomap es)

/-- The record that is read from a value is of the one for whom the call acts. -/
theorem ofRecord_user? {record : Value} (h : LearningRecord.ofRecord record = .ok r) :
    r.user? = (Command.learn record).actor? ∧
      ((Command.learn record).IsFormed → ∃ w, r.userId = .ok w) := by
  obtain ⟨es, rfl, -, hc⟩ := ofRecord_slots h
  obtain ⟨huser, hreadable⟩ := readSlot_user? hc rfl
  exact ⟨huser, fun hformed => hreadable (hformed es rfl)⟩

theorem Command.Learns.user? {c : Command} (h : c.Learns r) :
    r.user? = c.actor? ∧ (c.IsFormed → ∃ w, r.userId = .ok w) := by
  cases c with
  | learn record => exact ofRecord_user? h
  | feedback feedback context =>
    obtain ⟨f, slot, -, hcontext, rfl⟩ := h
    exact readContext_user? hcontext rfl
  | behavior user action context =>
    obtain ⟨-, -, _, -, rfl⟩ := behaviorRecord_eq_ok h
    exact ⟨rfl, fun _ => ⟨_, rfl⟩⟩
  | _ => exact h.elim

/-! ## Steps of others -/

/-- The user has the given view, and it can be told of each record whose it is. -/
def Sees (u : String) (v : View) (l : Learner) : Prop := view u l = v ∧ l.IsReadable

/-- The attempt leaves the view of the user as it is. -/
def Unseen {α : Type} (u : String) (x : Attempt Learner α) : Prop := ∀ v, Keeps (Sees u v) x

theorem newId_unseen : Unseen u newId := fun _ => newId_keeps fun _ _ hl => hl

theorem isUser_toKey {user : Value} {key : Scalar} (huser : user ≠ .text u)
    (h : user.toKey = .ok key) : isUser u key = false := by
  refine decide_eq_false fun hu => huser ?_
  rw [Value.eq_scalar_of_toKey h, hu]

theorem isUser_adaptationKey {user domain : Value} {key : Scalar × Scalar}
    (huser : user ≠ .text u) (h : adaptationKey user domain = .ok key) :
    isUser u key.1 = false := by
  obtain ⟨k, hk, h⟩ := Except.bind_eq_ok.1 h
  obtain ⟨d, -, h⟩ := Except.bind_eq_ok.1 h
  cases h
  exact isUser_toKey huser hk

theorem Sees.putAdaptation {v : View} (h : Sees u v l) {key : Scalar × Scalar}
    (hkey : isUser u key.1 = false) (a : Adaptation) :
    Sees u v { l with adaptations := l.adaptations.put key a } := by
  refine ⟨?_, h.2⟩
  rw [view_putAdaptation, hkey]
  exact h.1

section

variable {user : Value} (huser : user ≠ .text u)
include huser

theorem obtainAdaptation_unseen (domain : Value) : Unseen u (obtainAdaptation user domain) := by
  intro v
  refine keeps_lift_bind fun key hkey => keeps_get.bind fun l => ?_
  split
  · exact keeps_pure _
  · refine (newId_unseen v).bind fun id => keeps_get_bind fun l hl => ?_
    refine keeps_lift_bind (fun effectiveness _ => ?_) l hl
    refine Keeps.bind (keeps_set ?_) fun _ => (keeps_lift _).bind fun _ => keeps_pure _
    exact hl.putAdaptation (isUser_adaptationKey huser hkey) _

theorem storeAdaptation_unseen (domain : Value) (a : Adaptation) :
    Unseen u (storeAdaptation user domain a) :=
  fun _ => keeps_lift_bind fun _ hkey =>
    keeps_modify fun _ hl => hl.putAdaptation (isUser_adaptationKey huser hkey) a

theorem adapt_unseen (domain data : Value) : Unseen u (adapt user domain data) := by
  intro v
  refine (obtainAdaptation_unseen huser domain v).bind fun a => ?_
  refine (storeAdaptation_unseen huser domain _ v).bind fun _ => ?_
  refine keeps_get.bind fun _ => (keeps_lift _).bind fun _ => keeps_get.bind fun _ => ?_
  exact (storeAdaptation_unseen huser domain _ v).bind fun _ => keeps_pure _

theorem mergePreferences_unseen (given : Value) : Unseen u (mergePreferences user given) := by
  intro v
  refine keeps_lift_bind fun key hkey => keeps_get.bind fun l => ?_
  have hput : ∀ es, Keeps (Sees u v)
      (modify fun l : Learner => { l with preferences := l.preferences.put key es }) := by
    refine fun es => keeps_modify fun l hl => ⟨?_, hl.2⟩
    rw [view_putPreferences, isUser_toKey huser hkey]
    exact hl.1
  dsimp only
  split
  · exact (hput _).bind fun _ => keeps_throw _
  · exact keeps_get.bind fun _ => (hput _).bind fun _ => keeps_pure _

theorem noteBehavior_unseen (action : String) (context : Entries) :
    Unseen u (noteBehavior user action context) := by
  intro v
  refine keeps_lift_bind fun key hkey => keeps_get.bind fun l => ?_
  have hstore : ∀ b, Keeps (Sees u v) (storeBehavior key b) := by
    refine fun b => keeps_modify fun l hl => ⟨?_, hl.2⟩
    rw [view_storeBehavior, isUser_toKey huser hkey]
    exact hl.1
  split
  · refine (hstore _).bind fun _ => keeps_get.bind fun _ => ?_
    exact (keeps_lift _).bind fun _ => hstore _
  · exact (newId_unseen v).bind fun _ => keeps_get.bind fun _ => hstore _

end

/-! ## Records of others -/

theorem learnTables_unseen (r : LearningRecord) : Unseen u (learnTables r) :=
  fun _ _ hl => hl

theorem userId_ne (hr : r.user? ≠ some u) {user : Value} (h : r.userId = .ok user) :
    user ≠ .text u := by
  rintro rfl
  have heq := userId_equals (u := u) h
  rw [decide_eq_false hr] at heq
  exact Bool.false_ne_true (heq.symm.trans (beq_self_eq_true u))

theorem process_unseen (hr : r.user? ≠ some u) : Unseen u (process r) :=
  fun v => process_keeps (learnTables_unseen r v)
    (fun _ given huser => mergePreferences_unseen (userId_ne hr huser) given v)
    (fun _ action context huser => noteBehavior_unseen (userId_ne hr huser) action context v)
    fun _ domain data huser => adapt_unseen (userId_ne hr huser) domain data v

theorem Sees.concat {v : View} (h : Sees u v l) (hr : r.user? ≠ some u)
    (hreadable : ∃ w, r.userId = .ok w) : Sees u v { l with history := l.history ++ [r] } := by
  refine ⟨?_, h.2.concat hreadable⟩
  rw [view_concat, if_neg hr]
  exact h.1

theorem learn_unseen (hr : r.user? ≠ some u) (hreadable : ∃ w, r.userId = .ok w) :
    Unseen u (learn r) := by
  intro v l hl
  rw [learn_runOn_snd]
  have hrecorded : Sees u v (l.withRecord r) := hl.concat (r := l.stamp r) hr hreadable
  exact process_unseen (r := l.stamp r) hr v (l.withRecord r) hrecorded

/-! ## Calls of others -/

theorem nudge_unseen {feedback : Feedback} {context : Slot LearningContext}
    (huser : ∀ c, context = .known c → c.userId ≠ .text u) (hanon : u ≠ anonymousUser) :
    Unseen u (nudge feedback context) := by
  intro v
  refine keeps_lift_bind fun c hc => ?_
  have hother : c.userId.orElse (.text anonymousUser) ≠ .text u := by
    unfold Value.orElse
    split
    · intro h
      cases h
      exact hanon rfl
    · refine huser c ?_
      cases context with
      | known c' => exact congrArg Slot.known (Except.ok.inj hc)
      | raw w => cases hc
  refine (obtainAdaptation_unseen hother _ v).bind fun a => keeps_get.bind fun l => ?_
  refine (keeps_lift _).bind fun delta => ?_
  exact (storeAdaptation_unseen hother _ _ v).bind fun _ => keeps_lift _

/-- **Others.** A call that does not act for the user leaves the view of the user as it is, also when
it stops at a fault. -/
theorem perform_unseen (hanon : u ≠ anonymousUser) {c : Command} (hother : c.actor? ≠ some u)
    (hformed : c.IsFormed) : Unseen u (perform c) := by
  intro v
  have hne : ∀ {user : Value}, user.text? ≠ some u → user ≠ .text u := by
    rintro user h rfl
    exact h rfl
  refine perform_keeps (fun _ _ _ hl => hl) (fun r hr => ?learn) ?nudge ?adapt ?merge
  case learn =>
    obtain ⟨huser, hreadable⟩ := hr.user?
    exact learn_unseen (huser ▸ hother) (hreadable hformed) v
  case nudge =>
    rintro verdict context f slot rfl hslot
    obtain ⟨huser, -⟩ := readContext_user? (r := feedbackRecord f slot) hslot rfl
    refine nudge_unseen (fun c hc hid => hother ?_) hanon v
    rw [LearningRecord.user?_known (c := c) hc, hid] at huser
    exact huser.symm
  case adapt =>
    rintro user domain data rfl
    exact adapt_unseen (hne hother) domain data v
  case merge =>
    rintro user given rfl
    exact mergePreferences_unseen (hne hother) given v

end KnowledgeGraph.Learner
