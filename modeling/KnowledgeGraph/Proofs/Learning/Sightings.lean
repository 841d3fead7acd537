import KnowledgeGraph.Proofs.Learning.Isolation
import KnowledgeGraph.Proofs.Learning.Ranges
import KnowledgeGraph.Proofs.Sorting

/-!
# What is remembered of the actions of a user

The behaviours of a user are listed in the order in which the actions occur first in the history, one
for each of them, and each has the circumstances of the last record of its action (`Sighted`). A
record that names the user and an action changes the one behaviour of this action
(`noteBehavior_own`); all others leave the behaviours of the user alone (`process_keepsOwn`). By
default no sighting is lost, for a confidence can always be raised, so this holds after any calls
(`after_remembers`).
-/

namespace KnowledgeGraph

namespace History

/-! ## Actions -/

/-- The actions of a user, one for each behavioral record that names the user and an action. -/
def actionsOf (history : List LearningRecord) (u : String) : List String :=
  (history.filter fun r => r.learningType = .behavioral ∧ r.user? = some u).filterMap (·.action?)

variable {history : List LearningRecord} {r : LearningRecord} {u action : String}

theorem actionsOf_concat (htype : r.learningType = .behavioral) (huser : r.user? = some u)
    (haction : r.action? = some action) :
    actionsOf (history ++ [r]) u = actionsOf history u ++ [action] := by
  unfold actionsOf
  rw [filter_concat_of_pos ⟨htype, huser⟩, List.filterMap_append]
  simp only [List.filterMap_cons, haction, List.filterMap_nil]

theorem actionsOf_concat_of_none (h : ∀ action, ¬ (r.learningType = .behavioral ∧
    r.user? = some u ∧ r.action? = some action)) :
    actionsOf (history ++ [r]) u = actionsOf history u := by
  unfold actionsOf
  by_cases hown : r.learningType = .behavioral ∧ r.user? = some u
  · have hnone : r.action? = none := by
      cases haction : r.action? with
      | none => rfl
      | some action => exact absurd ⟨hown.1, hown.2, haction⟩ (h action)
    rw [filter_concat_of_pos hown, List.filterMap_append]
    simp only [List.filterMap_cons, hnone, List.filterMap_nil, List.append_nil]
  · rw [filter_concat_of_neg hown]

/-- A row of behaviours has one for each action of the user, in the order of first occurrences, and
each has the circumstances of the last record of its action. -/
structure Sighted (history : List LearningRecord) (u : String) (row : Table String Behavior) :
    Prop where
  keys : row.keys = (actionsOf history u).eraseDups
  action : ∀ e ∈ row, e.2.action = e.1
  context : ∀ e ∈ row, ∃ last, (ofAction history u e.1).getLast? = some last ∧
    e.2.context = last.circumstances

variable {row : Table String Behavior} (h : Sighted history u row)
include h

theorem Sighted.actions : row.values.map (·.action) = (actionsOf history u).eraseDups := by
  rw [← h.keys]
  unfold Table.values Table.keys
  rw [List.map_map]
  exact List.map_congr_left h.action

/-- A further sighting goes to the behaviour of its action, which is new or has its place already. -/
theorem Sighted.put (htype : r.learningType = .behavioral) (huser : r.user? = some u)
    (haction : r.action? = some action) {b : Behavior} (hb : b.action = action)
    (hcontext : b.context = r.circumstances) :
    Sighted (history ++ [r]) u (row.put action b) := by
  have hsharp := Key.sharp_string action
  have hnodup : row.keys.Nodup := h.keys ▸ nodup_eraseDups _
  have hmem : action ∈ row.keys ↔ action ∈ actionsOf history u := by
    rw [h.keys, List.mem_eraseDups]
  refine ⟨?_, fun e he => ?_, fun e he => ?_⟩
  · rw [actionsOf_concat htype huser haction, Table.eraseDups_append_singleton, ← h.keys]
    split
    · rename_i hold
      exact Table.keys_put_of_mem hsharp (hmem.2 hold)
    · rename_i hnew
      rw [Table.put_of_not_mem hsharp (mt hmem.1 hnew), Table.keys_append]
      rfl
  · obtain rfl | ⟨he, -⟩ := Table.eq_or_of_mem_put hsharp hnodup he
    · exact hb
    · exact h.action e he
  · obtain rfl | ⟨he, hne⟩ := Table.eq_or_of_mem_put hsharp hnodup he
    · refine ⟨r, ?_, hcontext⟩
      rw [ofAction_concat htype huser haction, List.getLast?_concat]
    · rw [ofAction_concat_of_ne fun hr => hne (Option.some.inj (hr.2.2.symm.trans haction))]
      exact h.context e he

theorem Sighted.skip (hr : ∀ action, ¬ (r.learningType = .behavioral ∧ r.user? = some u ∧
    r.action? = some action)) : Sighted (history ++ [r]) u row := by
  refine ⟨?_, h.action, fun e he => ?_⟩
  · rw [actionsOf_concat_of_none hr]
    exact h.keys
  · rw [ofAction_concat_of_ne (hr e.1)]
    exact h.context e he

end History

namespace Learner

open Attempt History

variable {l : Learner} {r : LearningRecord} {u action : String}

/-! ## Own sightings -/

theorem behaviorsBy_alter (t : Table Scalar (Table String Behavior)) (key : Scalar)
    (f : Table String Behavior → Table String Behavior) :
    behaviorsBy u (t.alter key [] f) =
      if isUser u key then f (behaviorsBy u t) else behaviorsBy u t := by
  unfold behaviorsBy Table.alter
  rw [lookup?_put_user]
  split
  · rename_i hkey
    rw [of_decide_eq_true hkey]
    rfl
  · rfl

theorem HasBehaviorsInRange.own (hl : l.HasBehaviorsInRange) :
    ∀ b ∈ (behaviorsBy u l.behaviors).values, b.InRange := by
  unfold behaviorsBy
  cases hrow : l.behaviors.lookup? (.text u) with
  | none => exact List.forall_mem_nil _
  | some row => exact hl.2 row (Table.mem_values_of_lookup? hrow)

/-- By default a sighting of a user always leaves a behaviour of the action with the context. -/
theorem noteBehavior_own (hl : l.HasBehaviorsInRange)
    (hactions : ∀ e ∈ behaviorsBy u l.behaviors, e.2.action = e.1) (action : String)
    (context : Entries) :
    ∃ b, b.action = action ∧ b.context = context ∧
      behaviorsBy u ((noteBehavior (.text u) action context).runOn l).2.behaviors =
        (behaviorsBy u l.behaviors).put action b := by
  have hself := isUser_self (u := u)
  unfold noteBehavior
  simp only [runOn_bind, runOn_lift, runOn_get, Value.toKey]
  cases hfound : (behaviorsBy u l.behaviors).lookup? action with
  | none =>
    unfold behaviorsBy at hfound
    rw [hfound]
    simp only [newId, storeBehavior, runOn_bind, runOn_get, runOn_set, runOn_pure, runOn_modify,
      behaviorsBy_alter, if_pos hself]
    exact ⟨_, rfl, rfl, rfl⟩
  | some b =>
    have hmem := Table.mem_of_lookup? (Key.sharp_string action) hfound
    have haction : b.action = action := hactions _ hmem
    have hb : b.InRange := hl.own b (List.mem_map_of_mem hmem)
    obtain ⟨x, hx, hlow, hhigh⟩ := hb.confidence
    obtain ⟨y, hraise, -⟩ := raise_inRange hlow hhigh
    have hstep : l.config.behaviorStep = .float 0.01 := by rw [hl.1]
    rw [← hx, ← hstep] at hraise
    unfold behaviorsBy at hfound
    rw [hfound]
    simp only [storeBehavior, Behavior.again, Behavior.count, runOn_bind, runOn_get, runOn_lift,
      runOn_modify, hraise, haction, Except.ok_bind, Except.pure_eq, behaviorsBy_alter, if_pos hself]
    refine ⟨_, ?_, ?_, Table.put_put (Key.sharp_string action).same_self _ _ _⟩
    · rfl
    · rfl

/-! ## Others -/

theorem noteBehavior_keepsOwn {user : Value} (huser : user ≠ .text u) (action : String)
    (context : Entries) (row : Table String Behavior) :
    Keeps (fun l => behaviorsBy u l.behaviors = row) (noteBehavior user action context) := by
  refine keeps_lift_bind fun key hkey => keeps_get.bind fun l => ?_
  have hstore (b : Behavior) :
      Keeps (fun l => behaviorsBy u l.behaviors = row) (storeBehavior key b) := by
    refine keeps_modify fun l hl => ?_
    rw [behaviorsBy_alter, isUser_toKey huser hkey]
    exact hl
  split
  · exact (hstore _).bind fun _ => keeps_get.bind fun _ => (keeps_lift _).bind fun _ => hstore _
  · exact (newId_keeps fun _ _ hl => hl).bind fun _ => keeps_get.bind fun _ => hstore _

/-- A record that is no sighting of the user leaves the behaviours of the user alone. -/
theorem process_keepsOwn (hr : ∀ action, ¬ (r.learningType = .behavioral ∧ r.user? = some u ∧
    r.action? = some action)) (row : Table String Behavior) :
    Keeps (fun l => behaviorsBy u l.behaviors = row) (process r) := by
  have huncounted (htype : r.learningType = .personalization ∨ r.learningType = .adaptive ∨
      r.learningType = .custom) : Keeps (fun l => behaviorsBy u l.behaviors = row) (process r) :=
    (process_keepsCore htype).keeps fun core => behaviorsBy u core.behaviors = row
  cases htype : r.learningType with
  | supervised | unsupervised | reinforcement =>
    rw [process_tables (by simp only [htype, true_or, or_true])]
    exact fun _ hl => hl
  | personalization => exact huncounted (.inl htype)
  | adaptive => exact huncounted (.inr (.inl htype))
  | custom => exact huncounted (.inr (.inr htype))
  | behavioral =>
    intro l hl
    cases hid : r.userId with
    | error f =>
      unfold process
      rw [htype]
      dsimp only
      rw [runOn_bind, runOn_lift, hid]
      exact hl
    | ok user =>
      by_cases hnone : user = .null ∨ r.action? = none
      · rw [process_behavioral_of_none htype hid hnone]
        exact hl
      · obtain ⟨hnull, haction⟩ := not_or.1 hnone
        obtain ⟨action, haction⟩ := Option.ne_none_iff_exists'.1 haction
        have hother : r.user? ≠ some u := fun huser => hr action ⟨htype, huser, haction⟩
        rw [process_behavioral htype hid hnull haction]
        exact noteBehavior_keepsOwn (userId_ne hother hid) action _ row l hl

/-! ## Runs -/

/-- By default the learner has the behaviours of a user in their range, one for each action. -/
def Remembers (u : String) (l : Learner) : Prop :=
  l.HasBehaviorsInRange ∧ Sighted l.history u (behaviorsBy u l.behaviors)

theorem learn_keepsRemembers (u : String) (r : LearningRecord) :
    Keeps (Remembers u) (learn r) := by
  rintro l ⟨hl, hsighted⟩
  refine ⟨learn_keepsBehaviors r l hl, ?_⟩
  rw [(learn_history r l).2, learn_runOn_snd]
  by_cases h : ∃ action, (l.stamp r).learningType = .behavioral ∧ (l.stamp r).user? = some u ∧
      (l.stamp r).action? = some action
  · obtain ⟨action, htype, huser, haction⟩ := h
    rw [process_behavioral htype (userId_of_user? huser) nofun haction]
    obtain ⟨b, hb, hcontext, hrow⟩ := noteBehavior_own (l := l.withRecord r) hl hsighted.action action
      (l.stamp r).circumstances
    rw [hrow]
    exact hsighted.put htype huser haction hb hcontext
  · have hrow := process_keepsOwn (not_exists.1 h) (behaviorsBy u l.behaviors) (l.withRecord r) rfl
    rw [hrow]
    exact hsighted.skip (not_exists.1 h)

/-- **Behaviours.** By default, after any calls, failed ones included, the behaviours of a user are one
for each action of the user, in the order of first occurrences, each with the circumstances of the
last record of its action. -/
theorem after_remembers (calls : List (Nat × Command)) (u : String) :
    (after {} calls).Remembers u := by
  have hstart : Remembers u (start {}) := ⟨⟨rfl, List.forall_mem_nil _⟩,
    ⟨rfl, List.forall_mem_nil _, List.forall_mem_nil _⟩⟩
  refine after_keeps hstart (fun _ _ hl => hl) fun call _ => ?_
  exact perform_keepsOf (P := fun core => (core.config = {} ∧
    ∀ t ∈ core.behaviors.values, ∀ b ∈ t.values, b.InRange) ∧
      Sighted core.history u (behaviorsBy u core.behaviors)) fun r _ => learn_keepsRemembers u r

end Learner

end KnowledgeGraph
