import KnowledgeGraph.Proofs.Best
import KnowledgeGraph.Proofs.Learning.Adapting
import KnowledgeGraph.Proofs.Learning.Mirror
import KnowledgeGraph.Proofs.Learning.Models
import KnowledgeGraph.Proofs.Learning.Weights
import KnowledgeGraph.Proofs.Number.Bounds

/-!
# What is recommended to a user

The recommendations of a user sum up the user's own records (`Summarizes`): how many they are, which
tasks were helped with most often, which outcome was the most frequent one, the mean of the ratings,
the share of feedback that says that it helped, and the experience that was named last. As long as
the records are too few there are none. An adaptation is given the recommendations, and its
effectiveness goes half way to the share, or to a half where there is none (`adapt_recommends`).
-/

namespace KnowledgeGraph

/-! ## Records -/

namespace LearningRecord

/-- The task that a record names, unless it is empty. -/
def namedTask? (r : LearningRecord) : Option String :=
  match r.context with
  | .known c => c.currentTask.text?.filter (· != "")
  | .raw _ => none

/-- The experience that a record names, unless it counts as absent. -/
def experience? (r : LearningRecord) : Option Value :=
  match r.context with
  | .known c => if c.userExperience.isAbsent then none else some c.userExperience
  | .raw _ => none

end LearningRecord

namespace Learner

open Attempt

variable {config : LearningConfig} {l : Learner} {r : LearningRecord} {rs : List LearningRecord}
  {u : String}

def verdicts (rs : List LearningRecord) : List Feedback := Slot.knowns (rs.map (·.feedback))

/-- The tasks of records that helped, as keys. -/
def helpfulTasks (rs : List LearningRecord) : List Scalar :=
  (rs.filter (·.isHelpful)).filterMap fun r => r.namedTask?.map .text

def outcomes (rs : List LearningRecord) : List String :=
  (verdicts rs).filterMap fun f => f.outcome.map Outcome.label

/-- How sure one can be of what records recommend: the share of verdicts that say that it helped, a
half without verdicts. -/
def sureness (rs : List LearningRecord) : Float :=
  if (verdicts rs).isEmpty then 0.5 else shareOf (verdicts rs)

/-- Recommendations sum up the records of a user. -/
structure Summarizes (rs : List LearningRecord) (es : Entries) : Prop where
  names : Table.keys es = ["historySize", "preferredTasks", "preferredOutcome", "averageRating",
    "helpfulRate", "experienceLevel"].map .text
  historySize : Entries.get? es "historySize" = some (.count rs.length)
  preferredTasks : ∃ ranked, IsByFrequency (helpfulTasks rs) ranked ∧
    Entries.get? es "preferredTasks" = some (.list ((ranked.take 3).map .scalar))
  preferredOutcome : ∃ best, IsMostFrequent (outcomes rs) best ∧
    Entries.get? es "preferredOutcome" = some ((best.map .text).getD .null)
  averageRating : Entries.get? es "averageRating" = some (if (verdicts rs).isEmpty then .null
    else .float (mean ((verdicts rs).map (·.rating))))
  helpfulRate : Entries.get? es "helpfulRate" = some (if (verdicts rs).isEmpty then .null
    else .float (shareOf (verdicts rs)))
  experienceLevel : Entries.get? es "experienceLevel" =
    some ((rs.filterMap (·.experience?)).getLast?.getD .null)

/-! ## Tasks and experience -/

theorem isByFrequency_tasks (rs : List LearningRecord) : IsByFrequency (helpfulTasks rs)
    (Table.byCount (Table.tally (helpfulTasks rs))).keys := by
  refine Table.isByFrequency_byCount fun k hk => ?_
  obtain ⟨r, -, hr⟩ := List.mem_filterMap.1 hk
  obtain ⟨s, -, rfl⟩ := Option.map_eq_some_iff.1 hr
  exact Key.sharp_text s

theorem firstExperience_eq (h : ∀ r ∈ rs, ∃ c, r.context = .known c) :
    firstExperience rs = .ok ((rs.filterMap (·.experience?)).head?.getD .null) := by
  induction rs with
  | nil => rfl
  | cons r rest ih =>
    obtain ⟨c, hc⟩ := h r List.mem_cons_self
    unfold firstExperience
    rw [List.filterMap_cons, LearningRecord.experience?, hc, Slot.get, Except.ok_bind]
    dsimp only
    split
    · exact ih fun r hr => h r (List.mem_cons_of_mem _ hr)
    · rfl

/-! ## Verdicts -/

/-- The record is plain and has a context. -/
structure IsPersonal (r : LearningRecord) : Prop where
  plain : r.IsPlain
  context : ∃ c, r.context = .known c

theorem filter_isHelpful_rated (rs : List LearningRecord) :
    (rated rs).filter (·.isHelpful) = rs.filter (·.isHelpful) := by
  unfold rated
  rw [List.filter_filter]
  refine List.filter_congr fun r _ => ?_
  cases hhelpful : r.isHelpful with
  | false => rfl
  | true => rw [LearningRecord.isAbsent_of_isHelpful hhelpful]; rfl

section

variable (hrs : ∀ r ∈ rs, IsPersonal r)
include hrs

theorem map_feedback_rated : (rated rs).map (·.feedback) = (verdicts rs).map .known := by
  unfold rated verdicts Slot.knowns
  induction rs with
  | nil => rfl
  | cons r rest ih =>
    have ih := ih fun r hr => hrs r (List.mem_cons_of_mem _ hr)
    rw [List.filter_cons, List.map_cons, List.filterMap_cons]
    obtain hempty | ⟨f, hf⟩ := (hrs r List.mem_cons_self).plain.feedback
    · rw [hempty]
      exact ih
    · rw [hf]
      show (r :: _).map (·.feedback) = _
      rw [List.map_cons, ih, hf]
      rfl

theorem length_rated : (rated rs).length = (verdicts rs).length := by
  have h := congrArg List.length (map_feedback_rated hrs)
  rwa [List.length_map, List.length_map] at h

theorem isEmpty_rated : (rated rs).isEmpty = (verdicts rs).isEmpty := by
  rw [Bool.eq_iff_iff, List.isEmpty_iff_length_eq_zero, List.isEmpty_iff_length_eq_zero,
    length_rated hrs]

theorem mapM_feedback_rated : (rated rs).mapM (fun r => r.feedback.get) = .ok (verdicts rs) := by
  rw [← mapM_get_known, ← map_feedback_rated hrs, List.mapM_map]
  rfl

theorem filterE_helpful_rated :
    filterE (fun r => return (← r.feedback.get).helpful) (rated rs) =
      .ok (rs.filter (·.isHelpful)) := by
  rw [← filter_isHelpful_rated]
  refine filterE_isHelpful fun r hr => ?_
  obtain ⟨hr, hpresent⟩ := mem_rated.1 hr
  refine (hrs r hr).plain.feedback.resolve_left fun hempty => ?_
  rw [hempty] at hpresent
  cases hpresent

theorem length_filter_isHelpful :
    (rs.filter (·.isHelpful)).length = (verdicts rs).countP (·.helpful) := by
  unfold verdicts Slot.knowns
  induction rs with
  | nil => rfl
  | cons r rest ih =>
    have ih := ih fun r hr => hrs r (List.mem_cons_of_mem _ hr)
    rw [List.filter_cons, List.map_cons, List.filterMap_cons, LearningRecord.isHelpful]
    obtain hempty | ⟨f, hf⟩ := (hrs r List.mem_cons_self).plain.feedback
    · rw [hempty]
      exact ih
    · rw [hf]
      dsimp only
      rw [List.countP_cons, ← ih]
      split <;> rfl

/-! ## Summaries -/

theorem mapM_taskKey :
    rs.mapM taskKey? = .ok (rs.map fun r => r.namedTask?.map Scalar.text) := by
  refine Except.mapM_of_forall fun r hr => ?_
  obtain ⟨c, hc⟩ := (hrs r hr).context
  have htask : c.currentTask.IsTextOrNull := by
    obtain hempty | ⟨c', hc', -, htask⟩ := (hrs r hr).plain.context
    · rw [hc] at hempty
      cases hempty
    · rw [hc, Slot.known.injEq] at hc'
      exact hc' ▸ htask
  unfold taskKey? LearningRecord.namedTask?
  rw [hc, Slot.get, Except.ok_bind]
  dsimp only
  obtain hnull | ⟨s, hs⟩ := htask
  · rw [hnull]
    rfl
  · rw [hs]
    by_cases hempty : s = ""
    · rw [hempty]
      rfl
    · rw [Value.isAbsent_text hempty]
      have hkept : (Value.text s).text?.filter (· != "") = some s := by
        show (some s).filter (· != "") = some s
        rw [Option.filter_some, if_pos (by simpa using hempty)]
      rw [hkept]
      rfl

theorem firstExperience_reverse : firstExperience rs.reverse =
    .ok ((rs.filterMap (·.experience?)).getLast?.getD .null) := by
  rw [firstExperience_eq fun r hr => (hrs r (List.mem_reverse.1 hr)).context,
    List.filterMap_reverse, List.head?_reverse]

theorem exists_taskKeys : ∃ keys, (rs.filter (·.isHelpful)).mapM taskKey? = .ok keys ∧
    keys.filterMap id = helpfulTasks rs := by
  refine ⟨_, mapM_taskKey fun r hr => hrs r (List.mem_of_mem_filter hr), ?_⟩
  rw [List.filterMap_map]
  rfl

theorem exists_summary : ∃ es, summarize rs = .ok (es, sureness rs) ∧ Summarizes rs es := by
  obtain ⟨keys, hkeys, htasks⟩ := exists_taskKeys hrs
  have houtcomes : IsMostFrequent (outcomes rs) _ :=
    Table.isMostFrequent_mostCounted fun k _ => Key.sharp_string k
  have hhelpful := filterE_helpful_rated hrs
  have hfeedback := mapM_feedback_rated hrs
  have hempty := isEmpty_rated hrs
  have hrate : (rs.filter (·.isHelpful)).length.toFloat / (rated rs).length.toFloat =
      shareOf (verdicts rs) := by
    rw [length_filter_isHelpful hrs, length_rated hrs]
    rfl
  unfold rated at hhelpful hfeedback hempty hrate
  unfold summarize
  simp only [hhelpful, hfeedback, hkeys, htasks, firstExperience_reverse hrs, Except.ok_bind, hrate,
    hempty]
  refine ⟨_, rfl, rfl, rfl, ⟨_, isByFrequency_tasks rs, ?_⟩, ⟨_, houtcomes, ?_⟩, rfl, rfl, rfl⟩
  · unfold Table.keys
    rw [← List.map_take, List.map_map]
    rfl
  · rw [Option.map_map]
    rfl

end

/-- What is recommended to a user: nothing for few records, and else what they sum up to. -/
theorem exists_recommendations {least : Quantity} (hleast : l.config.minHistory.quantity = .ok least)
    (hplain : ∀ r ∈ l.history, r.IsPlain) (u : String) :
    ∃ es c, l.recommendations (.text u) = .ok (es, c) ∧
      (l.IsShort u least → es = [] ∧ c = 0.5) ∧
      (¬ l.IsShort u least → Summarizes (recordsBy u l.history) es ∧
        c = sureness (recordsBy u l.history)) := by
  have hreadable : l.IsReadable := fun r hr => ⟨_, userId_eq (hplain r hr)⟩
  have hpersonal : ∀ r ∈ recordsBy u l.history, IsPersonal r := fun r hr =>
    ⟨hplain r (List.mem_of_mem_filter hr), exists_context_of_recordsBy hr⟩
  obtain ⟨es, hsummary, hes⟩ := exists_summary hpersonal
  unfold recommendations
  rw [recordsOf_eq hreadable, Except.ok_bind, hleast, Except.ok_bind]
  split
  · rename_i hshort
    exact ⟨[], 0.5, rfl, fun _ => ⟨rfl, rfl⟩, fun hlong => absurd hshort hlong⟩
  · rename_i hlong
    exact ⟨es, _, hsummary, fun hshort => absurd hshort hlong, fun _ => ⟨hes, rfl⟩⟩

/-! ## Adaptation -/

theorem after_isPlain {calls : List (Nat × Command)} (hcalls : ∀ call ∈ calls, call.2.IsPlain) :
    ∀ r ∈ (after config calls).history, r.IsPlain := by
  refine after_keeps (I := fun l => ∀ r ∈ l.history, r.IsPlain) (List.forall_mem_nil _)
    (fun _ _ hl => hl) fun call hcall => ?_
  refine perform_keepsOf (P := fun core => ∀ r ∈ core.history, r.IsPlain) fun r hr => ?_
  obtain ⟨hfeedback, hcontext⟩ := hr.isPlain (hcalls call hcall)
  exact learn_keepsRecords fun _ => ⟨hfeedback, hcontext⟩

theorem inUnit_sureness (h : rs.length < 2 ^ 53) : InUnit (sureness rs) := by
  unfold sureness
  split
  · exact inUnit_half
  · rename_i hne
    refine inUnit_shareOf (by simpa using hne) (lt_of_le_of_lt ?_ h)
    unfold verdicts Slot.knowns
    exact (List.length_filterMap_le _ _).trans_eq (List.length_map _)

/-- The adaptation that a user starts from has an effectiveness of the unit interval. -/
theorem Obtained.inUnit {user domain : Scalar} {a : Adaptation}
    {t t' : Table (Scalar × Scalar) Adaptation} (h : Obtained config user domain a t t')
    (ht : ∀ a ∈ t.values, InUnit a.effectiveness) : InUnit a.effectiveness := by
  obtain ⟨hfound, -⟩ | ⟨-, hfresh, -⟩ := h
  · exact ht a (Table.mem_values_of_lookup? hfound)
  · obtain ⟨x, -, hx⟩ := hfresh.effectiveness
    exact hx ▸ inUnit_clampUnit x

/-- The adaptation gets the recommendations, and its effectiveness goes half way to a confidence. -/
theorem exists_adapted {d : String} {a : Adaptation} {n : Nat}
    {t : Table (Scalar × Scalar) Adaptation} {es : Entries} {c : Float}
    (hobtain : (obtainAdaptation (.text u) (.text d)).runOn l =
      (.ok a, { l with issued := n, adaptations := t }))
    (hrecommend : l.recommendations (.text u) = .ok (es, c)) (data : Value) :
    ∃ a' l', (adapt (.text u) (.text d) data).runOn l = (.ok a', l') ∧
      l'.adaptations.lookup? (.text u, .text d) = some a' ∧
      Entries.get? a'.parameters "recommendations" = some (.map es) ∧
      a'.effectiveness = clampUnit ((a.effectiveness + c) / 2) := by
  have hkey := (Key.sharp_text u).pair (Key.sharp_text d)
  have hset (parameters : Entries) :=
    Table.lookup?_put_self (Key.sharp_text "recommendations") parameters (.map es)
  have hrun := adapt_runOn hobtain data
  rw [hrecommend] at hrun
  refine ⟨_, _, hrun, Table.lookup?_put_self hkey _ _, hset _, ?_⟩
  cases data <;> rfl

/-- **Recommendations.** After any calls that leave records of the right forms only, adaptation
returns for every user. It starts from the adaptation of the user in the domain, which is created if
it is missing, and stores what it comes to. As long as the user has few records nothing is recommended,
and the effectiveness goes half way to a half. Otherwise what is recommended sums up the records of the
user, and the effectiveness goes half way to the share of verdicts that say that it helped, or to a half
without verdicts. The way is not cut off, as long as a float can count the records. -/
theorem adapt_recommends {x : Float} {least : Quantity}
    (hdefault : config.defaultEffectiveness.toFloat = .ok x)
    (hleast : config.minHistory.quantity = .ok least) {calls : List (Nat × Command)}
    (hplain : ∀ r ∈ (after config calls).history, r.IsPlain) (now : Nat) (u d : String)
    (data : Value) :
    let l : Learner := { after config calls with now }
    let rs := recordsBy u l.history
    ∃ old t es c a l', Obtained config (.text u) (.text d) old l.adaptations t ∧
      (adapt (.text u) (.text d) data).runOn l = (.ok a, l') ∧
      l'.adaptations.lookup? (.text u, .text d) = some a ∧
      Entries.get? a.parameters "recommendations" = some (.map es) ∧
      a.effectiveness = clampUnit ((old.effectiveness + c) / 2) ∧
      (l.IsShort u least ∨ rs.length < 2 ^ 53 →
        (a.effectiveness == (old.effectiveness + c) / 2) = true) ∧
      (l.IsShort u least → es = [] ∧ c = 0.5) ∧
      (¬ l.IsShort u least → Summarizes rs es ∧ c = sureness rs) := by
  intro l rs
  have hconfig : l.config = config := after_config config calls
  have hbounded : l.IsBounded := after_isBounded config calls
  obtain ⟨old, n, t, hobtain, hobtained⟩ := obtainAdaptation_text (hconfig ▸ hdefault) u d
  obtain ⟨es, c, hrecommend, hshort, hlong⟩ :=
    exists_recommendations (l := l) (hconfig ▸ hleast) hplain u
  obtain ⟨a, l', hrun, hstored, hes, heffectiveness⟩ := exists_adapted hobtain hrecommend data
  refine ⟨old, t, es, c, a, l', hconfig ▸ hobtained, hrun, hstored, hes, heffectiveness,
    fun hlen => ?_, hshort, hlong⟩
  have hc : InUnit c := by
    by_cases h : l.IsShort u least
    · exact (hshort h).2 ▸ inUnit_half
    · exact (hlong h).2 ▸ inUnit_sureness (hlen.resolve_left h)
  have hmiddle := (hobtained.inUnit hbounded).add_div_two hc
  rw [heffectiveness, beq_iff_rank (inUnit_clampUnit _).isNaN hmiddle.isNaN]
  exact hmiddle.rank_clampUnit

/-- Two of three verdicts are of one user, and one of them says that it helped. -/
theorem adapt_recommends_few :
    let verdict (user : String) (helpful : Bool) : Command :=
      .feedback (.record [("rating", .int 4), ("helpful", .bool helpful)])
        (.record [("userId", .text user), ("currentTask", .text "edit")])
    let config : LearningConfig := { minHistory := .int 2 }
    let calls := [(0, verdict "ann" true), (1, verdict "bob" true), (2, verdict "ann" false)]
    ∃ es a l', (adapt (.text "ann") (.text "menu") .null).runOn { after config calls with now := 3 } =
        (.ok a, l') ∧
      Entries.get? a.parameters "recommendations" = some (.map es) ∧
      Entries.get? es "historySize" = some (.count 2) ∧
      Entries.get? es "helpfulRate" = some (.float 0.5) := by
  intro verdict config calls
  have hdefault : config.defaultEffectiveness.toFloat = .ok 0.5 := rfl
  have hleast : config.minHistory.quantity = .ok (.int 2) := rfl
  have hcalls : ∀ call ∈ calls, call.2.IsPlain := by
    rw [List.forall_mem_cons, List.forall_mem_cons, List.forall_mem_singleton]
    exact ⟨.inl ⟨_, rfl, .inr ⟨_, rfl⟩, .inr ⟨_, rfl⟩⟩, .inl ⟨_, rfl, .inr ⟨_, rfl⟩, .inr ⟨_, rfl⟩⟩,
      .inl ⟨_, rfl, .inr ⟨_, rfl⟩, .inr ⟨_, rfl⟩⟩⟩
  have hplain : ∀ r ∈ (after config calls).history, r.IsPlain := after_isPlain hcalls
  obtain ⟨old, t, es, c, a, l', -, hrun, -, hes, -, -, -, hlong⟩ :=
    adapt_recommends hdefault hleast hplain 3 "ann" "menu" .null
  have hcount : (recordsBy "ann" (after config calls).history).length = 2 := by decide +kernel
  have hrated : (verdicts (recordsBy "ann" (after config calls).history)).isEmpty = false := by
    decide +kernel
  have hrate : shareOf (verdicts (recordsBy "ann" (after config calls).history)) = 0.5 := by
    decide +kernel
  have hmany : ¬ IsShort { after config calls with now := 3 } "ann" (.int 2) := by
    show ¬ (Quantity.int (recordsBy "ann" (after config calls).history).length).less _ = true
    rw [hcount]
    decide
  obtain ⟨hsummary, -⟩ := hlong hmany
  refine ⟨es, a, l', hrun, hes, hsummary.historySize.trans ?_, hsummary.helpfulRate.trans ?_⟩
  · rw [hcount]
  · rw [hrated, hrate, if_neg Bool.false_ne_true]

end Learner

end KnowledgeGraph
