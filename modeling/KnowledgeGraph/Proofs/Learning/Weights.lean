import KnowledgeGraph.Proofs.Learning.Feedback
import KnowledgeGraph.Proofs.Number.Arithmetic

/-!
# Weights

Whatever the calls, the effectiveness of every adaptation stays in the unit interval
(`perform_keepsBounded`), so that a weight is at least a half and at most one and a half. Helpful
feedback then never lowers the weight of its user for its task and unhelpful feedback never raises it,
also where there was no adaptation before or it is at the end of its range (`Nudged.le_weightIn`,
`Nudged.weightIn_le`), and all other weights stay (`Nudged.weightIn_of_other`).
-/

namespace KnowledgeGraph.Learner

open Attempt

variable {l l' : Learner} {f : Feedback} {user domain : Scalar}

/-! ## Effectiveness -/

/-- The effectiveness of every adaptation is in the unit interval. -/
def IsBounded (l : Learner) : Prop := ∀ a ∈ l.adaptations.values, InUnit a.effectiveness

/-- An effectiveness is moved into the unit interval whenever it is stored. -/
theorem storesBounded : Stores IsBounded fun a => InUnit a.effectiveness where
  issue _ _ hl := hl
  put _ _ _ hl ha b hb := by
    obtain rfl | hb := Table.mem_values_put hb
    · exact ha
    · exact hl b hb
  found _ _ _ hl ha := hl _ (Table.mem_values_of_lookup? ha)
  new _ _ _ x _ := inUnit_clampUnit x
  adopt _ _ ha := ha
  recommend _ _ _ _ _ := inUnit_clampUnit _
  nudge _ _ _ _ := inUnit_clampUnit _

theorem learn_keepsBounded (r : LearningRecord) : Keeps IsBounded (learn r) := by
  intro l hl
  rw [learn_runOn_snd]
  have hprocess : Keeps IsBounded (process (l.stamp r)) :=
    process_keeps (fun _ hl => hl)
      (fun user given _ => mergePreferences_keeps (fun _ _ hl => hl) user given)
      (fun user action context _ =>
        noteBehavior_keeps (fun _ _ hl => hl) (fun _ _ hl => hl) user action context)
      fun user domain data _ => storesBounded.adapt user domain data
  exact hprocess (l.withRecord r) hl

/-- **Effectiveness.** No call takes an effectiveness out of the unit interval, also when it stops at a
fault. -/
theorem perform_keepsBounded (c : Command) : Keeps IsBounded (perform c) :=
  perform_keeps (fun _ _ _ hl => hl) (fun r _ => learn_keepsBounded r)
    (fun _ _ f slot _ _ => storesBounded.nudge_of f slot)
    (fun user domain data _ => storesBounded.adapt user domain data)
    fun user given _ => mergePreferences_keeps (fun _ _ hl => hl) user given

theorem after_isBounded (config : LearningConfig) (calls : List (Nat × Command)) :
    (after config calls).IsBounded :=
  after_keeps (List.forall_mem_nil _) (fun _ _ hl => hl) fun call _ => perform_keepsBounded call.2

/-! ## Weights -/

/-- The weight of a user in a domain, both given as keys. -/
def weightIn (l : Learner) (user domain : Scalar) : Float :=
  match l.adaptations.lookup? (user, domain) with
  | some a => 0.5 + a.effectiveness
  | none => 1

theorem weight_eq {v : Value} (hv : v.orElse (.text anonymousUser) = .scalar user) :
    l.weight v (.scalar domain) = .ok (l.weightIn user domain) := by
  unfold weight adaptation? weightIn
  rw [hv]
  show (match l.adaptations.lookup? (user, domain) with
    | some a => Except.ok (0.5 + a.effectiveness)
    | none => .ok 1) = _
  split <;> rfl

theorem IsBounded.isModest_weightIn (hl : l.IsBounded) (user domain : Scalar) :
    IsModest (l.weightIn user domain) := by
  unfold weightIn
  split
  · rename_i a ha
    exact isModest_add inUnit_half (hl a (Table.mem_values_of_lookup? ha))
  · exact inUnit_one.isModest

/-! ## Nudges -/

theorem nudge_default (f : Feedback) :
    ({} : LearningConfig).nudge f = .ok (if f.helpful then 0.1 else -0.1) := by
  unfold LearningConfig.nudge
  cases f.helpful <;> rfl

theorem half_add_le {x y : Float} (hx : InUnit x) (hy : InUnit y) (h : x ≤ y) : 0.5 + x ≤ 0.5 + y :=
  inUnit_half.isModest.add_le_add_left hx.isModest hy.isModest h

section

variable (h : Nudged f user domain l l')
include h

theorem Nudged.lookup?_of_other (huser : Key.Sharp user) (hdomain : Key.Sharp domain)
    {key : Scalar × Scalar} (hother : Key.same (user, domain) key = false) :
    l'.adaptations.lookup? key = l.adaptations.lookup? key := by
  obtain ⟨a, delta, t, -, hobtained, hadaptations⟩ := h
  have hput (t : Table (Scalar × Scalar) Adaptation) (b : Adaptation) :
      (t.put (user, domain) b).lookup? key = t.lookup? key :=
    Table.lookup?_put_of_same_eq_false (huser.pair hdomain) hother t b
  rw [hadaptations, hput]
  obtain ⟨-, rfl⟩ | ⟨-, -, rfl⟩ := hobtained
  · rfl
  · rw [hput]

/-- Another user, or the same one in another domain, keeps the weight. -/
theorem Nudged.weightIn_of_other (huser : Key.Sharp user) (hdomain : Key.Sharp domain)
    {user' domain' : Scalar} (hother : Key.same (user, domain) (user', domain') = false) :
    l'.weightIn user' domain' = l.weightIn user' domain' := by
  unfold weightIn
  rw [h.lookup?_of_other huser hdomain hother]

theorem Nudged.weight_of_other (huser : Key.Sharp user) (hdomain : Key.Sharp domain)
    {domain' : Scalar} (hother : Key.same domain domain' = false) (v : Value) :
    l'.weight v (.scalar domain') = l.weight v (.scalar domain') := by
  have hkey (user' : Scalar) : Key.same (user, domain) (user', domain') = false := by
    show (Key.same user user' && Key.same domain domain') = false
    rw [hother, Bool.and_false]
  cases hv : v.orElse (.text anonymousUser) with
  | scalar user' => rw [weight_eq hv, weight_eq hv, h.weightIn_of_other huser hdomain (hkey user')]
  | list _ | map _ =>
    unfold weight adaptation? adaptationKey
    rw [hv]
    rfl

/-- The weight of the user in the domain comes from an effectiveness that is moved by a tenth. Before
the first feedback the weight is one, and the effectiveness a half. -/
theorem Nudged.weightIn_self (hconfig : l.config = {}) (hl : l.IsBounded) (huser : Key.Sharp user)
    (hdomain : Key.Sharp domain) :
    ∃ x, InUnit x ∧
      l'.weightIn user domain = 0.5 + clampUnit (x + if f.helpful then 0.1 else -0.1) ∧
      (l.weightIn user domain = 0.5 + x ∨ l.weightIn user domain = 1 ∧ x = 0.5) := by
  obtain ⟨a, delta, t, hdelta, hobtained, hadaptations⟩ := h
  rw [hconfig, nudge_default, Except.ok.injEq] at hdelta
  have hafter : l'.weightIn user domain = 0.5 + clampUnit (a.effectiveness + delta) := by
    unfold weightIn
    rw [hadaptations, Table.lookup?_put_self (huser.pair hdomain)]
    rfl
  rw [hafter, hdelta]
  obtain ⟨hfound, -⟩ | ⟨hnone, hfresh, -⟩ := hobtained
  · refine ⟨a.effectiveness, hl a (Table.mem_values_of_lookup? hfound), rfl, .inl ?_⟩
    unfold weightIn
    rw [hfound]
  · obtain ⟨x, hx, heffectiveness⟩ := hfresh.effectiveness
    rw [hconfig] at hx
    cases hx
    have hhalf : clampUnit 0.5 = 0.5 := clampUnit_of_within (by decide +kernel) (by decide +kernel)
    refine ⟨0.5, inUnit_half, ?_, .inr ⟨?_, rfl⟩⟩
    · rw [heffectiveness, hhalf]
    · unfold weightIn
      rw [hnone]

/-- **Helpful feedback does not lower the weight.** -/
theorem Nudged.le_weightIn (hconfig : l.config = {}) (hl : l.IsBounded) (huser : Key.Sharp user)
    (hdomain : Key.Sharp domain) (hhelpful : f.helpful = true) :
    l.weightIn user domain ≤ l'.weightIn user domain := by
  obtain ⟨x, hx, hafter, hbefore⟩ := h.weightIn_self hconfig hl huser hdomain
  rw [hafter, hhelpful, if_pos rfl]
  obtain hbefore | ⟨hbefore, rfl⟩ := hbefore
  · rw [hbefore]
    have hraised : x ≤ x + 0.1 :=
      hx.isModest.le_add inUnit_tenth.isModest (inUnit_iff_value.1 inUnit_tenth).2.1
    refine half_add_le hx (inUnit_clampUnit _) (le_of_le_le ?_ (clampUnit_mono hraised))
    exact (le_iff_rank hx.isNaN (inUnit_clampUnit x).isNaN).2 hx.rank_clampUnit.ge
  · rw [hbefore]
    decide +kernel

/-- **Unhelpful feedback does not raise the weight.** -/
theorem Nudged.weightIn_le (hconfig : l.config = {}) (hl : l.IsBounded) (huser : Key.Sharp user)
    (hdomain : Key.Sharp domain) (hhelpful : f.helpful = false) :
    l'.weightIn user domain ≤ l.weightIn user domain := by
  obtain ⟨x, hx, hafter, hbefore⟩ := h.weightIn_self hconfig hl huser hdomain
  rw [hafter, hhelpful, if_neg Bool.false_ne_true]
  obtain hbefore | ⟨hbefore, rfl⟩ := hbefore
  · rw [hbefore]
    obtain ⟨hmodest, hvalue⟩ := inUnit_tenth.isModest.neg
    have hlowered : x + -0.1 ≤ x :=
      hx.isModest.add_le hmodest (hvalue ▸ neg_nonpos.2 (inUnit_iff_value.1 inUnit_tenth).2.1)
    refine half_add_le (inUnit_clampUnit _) hx (le_of_le_le (clampUnit_mono hlowered) ?_)
    exact (le_iff_rank (inUnit_clampUnit x).isNaN hx.isNaN).2 hx.rank_clampUnit.le
  · rw [hbefore]
    decide +kernel

end

end KnowledgeGraph.Learner
