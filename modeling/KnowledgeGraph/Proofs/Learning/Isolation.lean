import KnowledgeGraph.Proofs.Coupling
import KnowledgeGraph.Proofs.Learning.Unseen

/-!
# Users are isolated from each other

All users share one history, one table of adaptations and one running number. Still, what can be
asked about a user depends only on what was called for this user (`after_isolated`). Two learners
that give the user the same view (`Shares`) do so after the same call for the user, at whatever times
it is made (`perform_moves`), and after a call for another on one side only (`perform_unseen`). So
the calls of others can be left out of a run (`foldl_ownCalls`), and the remaining ones go in step
(`foldl_retimed`).
-/

namespace KnowledgeGraph.Learner

open Attempt

variable {u : String} {l l' : Learner} {r : LearningRecord}

/-! ## Learners that look the same -/

/-- Two learners give the user the same view, and it can be told of each record whose it is. -/
structure Shares (u : String) (l l' : Learner) : Prop where
  view : view u l = view u l'
  left : l.IsReadable
  right : l'.IsReadable

namespace Shares

theorem symm (h : Shares u l l') : Shares u l' l := ⟨h.view.symm, h.right, h.left⟩

theorem trans {l'' : Learner} (h : Shares u l l') (h' : Shares u l' l'') : Shares u l l'' :=
  ⟨h.view.trans h'.view, h.left, h'.right⟩

theorem config (h : Shares u l l') : l.config = l'.config := congrArg View.config h.view

theorem putAdaptation (h : Shares u l l') (key : Scalar × Scalar) {a a' : Adaptation}
    (ha : a.undated = a'.undated) :
    Shares u { l with adaptations := l.adaptations.put key a }
      { l' with adaptations := l'.adaptations.put key a' } := by
  refine ⟨?_, h.left, h.right⟩
  rw [view_putAdaptation, view_putAdaptation, ha, h.view]

theorem storeBehavior (h : Shares u l l') (key : Scalar) {b b' : Behavior}
    (hb : b.undated = b'.undated) :
    Shares u { l with behaviors := l.behaviors.alter key [] (Table.put · b.action b) }
      { l' with behaviors := l'.behaviors.alter key [] (Table.put · b'.action b') } := by
  have haction : b.action = b'.action := (congrArg Behavior.action hb :)
  refine ⟨?_, h.left, h.right⟩
  rw [view_storeBehavior, view_storeBehavior, hb, haction, h.view]

theorem putPreferences (h : Shares u l l') (key : Scalar) {es es' : Entries}
    (hes : es.undated = es'.undated) :
    Shares u { l with preferences := l.preferences.put key es }
      { l' with preferences := l'.preferences.put key es' } := by
  refine ⟨?_, h.left, h.right⟩
  rw [view_putPreferences, view_putPreferences, hes, h.view]

theorem concat (h : Shares u l l') {r r' : LearningRecord} (hr : r.undated = r'.undated)
    (hreadable : ∃ w, r.userId = .ok w) :
    Shares u { l with history := l.history ++ [r] } { l' with history := l'.history ++ [r'] } := by
  have huser : r.user? = r'.user? := (congrArg LearningRecord.user? hr :)
  have hid : r.userId = r'.userId := (congrArg LearningRecord.userId hr :)
  refine ⟨?_, h.left.concat hreadable, h.right.concat (hid ▸ hreadable)⟩
  rw [view_concat, view_concat, huser, hr, h.view]

end Shares

/-- Two optional values with the same image are both present or both missing. -/
theorem eq_some_or_eq_none {α β : Type} {f : α → β} {o o' : Option α} (h : o.map f = o'.map f) :
    (∃ a a', o = some a ∧ o' = some a' ∧ f a = f a') ∨ o = none ∧ o' = none := by
  cases o with
  | some a =>
    cases o' with
    | some a' => exact .inl ⟨a, a', rfl, rfl, Option.some.inj h⟩
    | none => cases h
  | none =>
    cases o' with
    | some a' => cases h
    | none => exact .inr ⟨rfl, rfl⟩

/-! ## Adaptations -/

theorem newId_couples : Couples (Shares u) (fun _ _ => True) newId newId :=
  couples_get_bind fun _ _ h => ⟨trivial, h.view, h.left, h.right⟩

theorem obtainAdaptation_couples (domain : Value) :
    Couples (Shares u) (fun a a' => a.undated = a'.undated) (obtainAdaptation (.text u) domain)
      (obtainAdaptation (.text u) domain) := by
  refine couples_lift_bind rfl fun key hkey => couples_get_bind fun l l' h => ?_
  have hfound : (l.adaptations.lookup? key).map Adaptation.undated =
      (l'.adaptations.lookup? key).map Adaptation.undated := by
    rw [lookup?_adaptations_view hkey, lookup?_adaptations_view hkey, h.view]
  obtain ⟨a, a', ha, ha', hsame⟩ | ⟨hnone, hnone'⟩ := eq_some_or_eq_none hfound
  · rw [ha, ha']
    exact couples_pure hsame l l' h
  · rw [hnone, hnone']
    refine (newId_couples.bind fun _ _ _ => couples_get_bind fun m m' hm => ?_) l l' h
    have hdefault := congrArg (·.defaultEffectiveness.toFloat) hm.config
    refine (couples_lift_bind hdefault fun effectiveness _ => ?_) m m' hm
    refine Couples.bind (couples_set (hm.putAdaptation key (by rfl))) fun _ _ _ => ?_
    exact couples_lift_bind rfl fun _ _ => couples_pure (by rfl)

theorem storeAdaptation_couples (domain : Value) {a a' : Adaptation}
    (ha : a.undated = a'.undated) :
    Couples (Shares u) Eq (storeAdaptation (.text u) domain a)
      (storeAdaptation (.text u) domain a') :=
  couples_lift_bind rfl fun key _ => couples_modify fun _ _ h => h.putAdaptation key ha

/-- An adaptation is stored, and stored again with what the history recommends. -/
theorem refresh_couples (domain : Value) {a a' : Adaptation} (ha : a.undated = a'.undated) :
    Couples (Shares u) (fun _ _ => True)
      (do
        storeAdaptation (.text u) domain a
        let found ← (← get).recommendations (.text u)
        let a := a.recommend found.1 found.2 (← get).now
        storeAdaptation (.text u) domain a
        return a)
      (do
        storeAdaptation (.text u) domain a'
        let found ← (← get).recommendations (.text u)
        let a' := a'.recommend found.1 found.2 (← get).now
        storeAdaptation (.text u) domain a'
        return a') := by
  refine (storeAdaptation_couples domain ha).bind fun _ _ _ => couples_get_bind fun l l' h => ?_
  have hrecommended : l.recommendations (.text u) = l'.recommendations (.text u) := by
    rw [recommendations_view h.left, recommendations_view h.right, h.view]
  refine (couples_lift_bind hrecommended fun found _ => couples_get.bind fun m m' _ => ?_) l l' h
  have hdone := Adaptation.recommend_undated ha found.1 found.2 m.now m'.now
  exact (storeAdaptation_couples domain hdone).bind fun _ _ _ => couples_return _ _

theorem adapt_couples (domain data : Value) :
    Couples (Shares u) (fun _ _ => True) (adapt (.text u) domain data)
      (adapt (.text u) domain data) := by
  refine (obtainAdaptation_couples domain).bind fun a a' ha => ?_
  cases data with
  | map es => exact refresh_couples domain (Adaptation.adopt_undated ha es)
  | scalar _ | list _ => exact refresh_couples domain ha

/-! ## Behaviours -/

theorem storeBehavior_couples (key : Scalar) {b b' : Behavior} (hb : b.undated = b'.undated) :
    Couples (Shares u) Eq (storeBehavior key b) (storeBehavior key b') :=
  couples_modify fun _ _ h => h.storeBehavior key hb

/-- Behaviours that differ in ids and times come out the same, or stop both. -/
theorem again_agree {b b' : Behavior} (hb : b.undated = b'.undated) (step : Value)
    (context : Entries) (now now' : Nat) :
    Agree (fun c c' => c.undated = c'.undated) (b.again step context now)
      (b'.again step context now') := by
  have hconfidence : b.confidence = b'.confidence := (congrArg Behavior.confidence hb :)
  unfold Behavior.again
  rw [hconfidence]
  cases Behavior.raise b'.confidence step with
  | error f => trivial
  | ok confidence =>
    exact congrArg (fun b : Behavior => { b with confidence, context }) hb

theorem noteBehavior_couples (action : String) (context : Entries) :
    Couples (Shares u) Eq (noteBehavior (.text u) action context)
      (noteBehavior (.text u) action context) := by
  refine couples_lift_bind rfl fun key hkey => couples_get_bind fun l l' h => ?_
  obtain rfl : Scalar.text u = key := Except.ok.inj hkey
  have hfound : ((behaviorsBy u l.behaviors).lookup? action).map Behavior.undated =
      ((behaviorsBy u l'.behaviors).lookup? action).map Behavior.undated := by
    rw [lookup?_behaviors_view, lookup?_behaviors_view, h.view]
  unfold behaviorsBy at hfound
  obtain ⟨b, b', hl, hl', hb⟩ | ⟨hnone, hnone'⟩ := eq_some_or_eq_none hfound
  · rw [hl, hl']
    replace hb := Behavior.count_undated hb
    refine (storeBehavior_couples _ hb).bind (fun _ _ _ => ?_) l l' h
    refine couples_get_bind fun m m' hm => ?_
    rw [congrArg LearningConfig.behaviorStep hm.config]
    exact (couples_lift (again_agree hb ..)).bind (fun _ _ => storeBehavior_couples _) m m' hm
  · rw [hnone, hnone']
    refine newId_couples.bind (fun _ _ _ => couples_get_bind fun m m' hm => ?_) l l' h
    rw [congrArg LearningConfig.behaviorStart hm.config]
    exact storeBehavior_couples _ (by rfl) m m' hm

/-! ## Preferences -/

theorem mergePreferences_couples (given : Value) :
    Couples (Shares u) (fun _ _ => True) (mergePreferences (.text u) given)
      (mergePreferences (.text u) given) := by
  refine couples_lift_bind rfl fun key hkey => couples_get_bind fun l l' h => ?_
  obtain rfl : Scalar.text u = key := Except.ok.inj hkey
  have hold : Entries.undated ((l.preferences.lookup? (.text u)).getD []) =
      Entries.undated ((l'.preferences.lookup? (.text u)).getD []) := by
    rw [preferences_view, preferences_view, h.view]
  have hput : ∀ {es es' : Entries}, es.undated = es'.undated → Couples (Shares u) Eq
      (modify fun l : Learner => { l with preferences := l.preferences.put (.text u) es })
      (modify fun l : Learner => { l with preferences := l.preferences.put (.text u) es' }) :=
    fun hes => couples_modify fun _ _ h => h.putPreferences _ hes
  have hmerged := Entries.merge_undated hold given.toEntries.1
  dsimp only
  split
  · exact ((hput hmerged).bind fun _ _ _ => couples_throw _ _) l l' h
  · refine couples_get.bind (fun m m' _ => ?_) l l' h
    exact (hput (Entries.stamp_undated hmerged _ _)).bind fun _ _ _ => couples_return _ _

/-! ## Records -/

theorem tablesLearn_couples (rate : Value) (r : LearningRecord) :
    Couples (fun _ _ : Tables Float => True) Eq (Tables.learn rate r) (Tables.learn rate r) := by
  have hchange : ∀ g : Tables Float → Tables Float,
      Couples (fun _ _ => True) Eq (modify g) (modify g) :=
    fun _ => couples_modify fun _ _ _ => trivial
  unfold Tables.learn
  split
  · refine couples_lift_bind rfl fun task _ => couples_lift_bind rfl fun key _ => ?_
    refine (hchange _).bind fun _ _ _ => ?_
    split
    · refine (hchange _).bind fun _ _ _ => ?_
      exact couples_lift_bind rfl fun f _ => hchange _
    · exact couples_pure rfl
  · exact couples_lift_bind rfl fun features _ => hchange _
  · refine couples_lift_bind rfl fun action _ => couples_lift_bind rfl fun reward _ => ?_
    exact couples_lift_bind rfl fun rate _ => hchange _
  · exact couples_pure rfl

theorem learnTables_couples (r : LearningRecord) :
    Couples (Shares u) Eq (learnTables r) (learnTables r) := by
  refine couples_get_bind fun l l' h => ?_
  rw [congrArg LearningConfig.reinforcementRate h.config]
  exact couples_within (fun _ _ _ _ hst => ⟨hst.view, hst.left, hst.right⟩)
    (tablesLearn_couples _ r) l l' h

theorem process_couples (hr : r.userId = .ok (.text u)) :
    Couples (Shares u) Eq (process r) (process r) := by
  unfold process
  split
  · exact learnTables_couples r
  · exact learnTables_couples r
  · exact learnTables_couples r
  · refine couples_lift_bind rfl fun user huser => ?_
    obtain rfl : Value.text u = user := Except.ok.inj (hr.symm.trans huser)
    split
    · exact (mergePreferences_couples _).discard
    · exact couples_pure rfl
  · refine couples_lift_bind rfl fun user huser => ?_
    obtain rfl : Value.text u = user := Except.ok.inj (hr.symm.trans huser)
    split
    · exact couples_pure rfl
    · exact couples_pure rfl
    · exact couples_lift_bind rfl fun action _ => noteBehavior_couples _ _
  · refine couples_lift_bind rfl fun user huser => ?_
    obtain rfl : Value.text u = user := Except.ok.inj (hr.symm.trans huser)
    dsimp only
    split
    · exact couples_lift_bind rfl fun domain _ => (adapt_couples _ _).discard
    · exact couples_pure rfl
  · exact couples_pure rfl

/-- The time and the session that a record is given make no difference to the user. -/
theorem learn_couples (hr : r.userId = .ok (.text u)) :
    Couples (Shares u) (fun _ _ => True) (learn r) (learn r) := by
  intro l l' h
  have hundated : (l.stamp r).undated = (l'.stamp r).undated := rfl
  have hrecorded : Shares u (l.withRecord r) (l'.withRecord r) := by
    obtain ⟨hview, hleft, hright⟩ := h.concat hundated ⟨_, hr⟩
    exact ⟨hview, hleft, hright⟩
  unfold CouplesOn
  rw [learn_runOn, learn_runOn]
  refine Couples.bind (process_couples hr) (fun _ _ _ => ?_) _ _ hrecorded
  rw [mention_stamp, mention_stamp]
  exact couples_lift_bind rfl fun _ _ => couples_return _ _

/-! ## Calls -/

theorem nudge_couples (hu : u ≠ "") (feedback : Feedback) {c : LearningContext}
    (hc : c.userId = .text u) :
    Couples (Shares u) Eq (nudge feedback (.known c)) (nudge feedback (.known c)) := by
  refine couples_lift_bind rfl fun c' hc' => ?_
  obtain rfl : c = c' := Except.ok.inj hc'
  rw [hc, orElse_name hu]
  refine (obtainAdaptation_couples _).bind fun a a' ha => couples_get_bind fun l l' h => ?_
  have hdelta := congrArg (·.nudge feedback) h.config
  refine couples_lift_bind hdelta (fun delta _ => ?_) l l' h
  have huser : a.userId = a'.userId := (congrArg Adaptation.userId ha :)
  have hdomain : a.domain = a'.domain := (congrArg Adaptation.domain ha :)
  rw [huser, hdomain]
  refine (storeAdaptation_couples _ (Adaptation.nudge_undated ha ..)).bind fun _ _ _ => ?_
  exact couples_lift (agree_refl _)

theorem userId_of_user? (hr : r.user? = some u) : r.userId = .ok (.text u) := by
  obtain ⟨c, hcontext, huser⟩ := LearningRecord.exists_context hr
  unfold LearningRecord.userId
  rw [hcontext, ← huser]
  rfl

theorem learnRecord_couples {record : Value} (hown : (Command.learn record).actor? = some u) :
    Couples (Shares u) (fun _ _ => True) (learnRecord record) (learnRecord record) :=
  couples_lift_bind rfl fun _ hr =>
    learn_couples (userId_of_user? ((ofRecord_user? hr).1.trans hown))

theorem learnFeedback_couples (hu : u ≠ "") {feedback context : Value}
    (hown : contextUser? context = some u) :
    Couples (Shares u) (fun _ _ => True) (learnFeedback feedback context)
      (learnFeedback feedback context) := by
  refine couples_lift_bind rfl fun feedback _ => couples_lift_bind rfl fun slot hslot => ?_
  refine couples_lift_bind rfl fun feedback _ => ?_
  have huser : (feedbackRecord feedback slot).user? = some u :=
    (readContext_user? hslot rfl).1.trans hown
  obtain ⟨c, hcontext, hc⟩ := LearningRecord.exists_context huser
  obtain rfl : slot = .known c := hcontext
  refine (learn_couples (userId_of_user? huser)).bind fun _ _ _ => ?_
  exact (nudge_couples hu feedback hc).bind fun _ _ _ => couples_return _ _

theorem learnBehavior_couples {user : Value} (hown : user.display = u) (action context : Value) :
    Couples (Shares u) (fun _ _ => True) (learnBehavior user action context)
      (learnBehavior user action context) := by
  refine couples_lift_bind rfl fun r hr => ?_
  have huser : r.userId = .ok (.text u) := by
    obtain ⟨-, -, _, -, rfl⟩ := behaviorRecord_eq_ok hr
    rw [← hown]
    rfl
  refine (learn_couples huser).discard.bind fun _ _ _ => couples_get.bind fun l l' _ => ?_
  refine couples_lift ?_
  unfold behavior?
  cases user.toText with
  | error f => trivial
  | ok s => cases action.toText <;> trivial

/-- **Own calls.** A call that acts for the user keeps learners alike to the user, also when it
stops at a fault. -/
theorem perform_moves (hu : u ≠ "") {c : Command} (hown : c.actor? = some u) :
    Moves (Shares u) (perform c) (perform c) := by
  cases c with
  | learn record => exact (learnRecord_couples hown).moves_lift _ _
  | feedback feedback context => exact (learnFeedback_couples hu hown).moves_lift _ _
  | adapt user domain data =>
    obtain rfl := Value.text?_eq_some.1 hown
    exact ((adapt_couples domain data).bind fun _ _ _ => couples_return _ _).moves
  | behavior user action context =>
    have hcouples := learnBehavior_couples (Option.some.inj hown) action context
    exact (hcouples.bind fun _ _ _ => couples_return _ _).moves
  | personalize user preferences =>
    obtain rfl := Value.text?_eq_some.1 hown
    exact ((mergePreferences_couples preferences).bind fun _ _ _ => couples_return _ _).moves
  | _ => cases hown

/-! ## Runs -/

/-- The learner after one more call. -/
def next (l : Learner) (call : Nat × Command) : Learner :=
  ((perform call.2).runOn { l with now := call.1 }).2

theorem Shares.own (h : Shares u l l') (hu : u ≠ "") {call call' : Nat × Command}
    (hown : call.2.actor? = some u) (hsame : call.2 = call'.2) :
    Shares u (next l call) (next l' call') := by
  unfold next
  rw [← hsame]
  exact perform_moves hu hown { l with now := call.1 } { l' with now := call'.1 }
    ⟨h.view, h.left, h.right⟩

theorem Shares.other (h : Shares u l l') (hanon : u ≠ anonymousUser) {call : Nat × Command}
    (hother : call.2.actor? ≠ some u) (hformed : call.2.IsFormed) : Shares u (next l call) l' := by
  obtain ⟨hview, hreadable⟩ :=
    perform_unseen hanon hother hformed (Learner.view u l) { l with now := call.1 } ⟨rfl, h.left⟩
  exact ⟨hview.trans h.view, hreadable, h.right⟩

variable {calls calls' : List (Nat × Command)}

def ownCalls (u : String) (calls : List (Nat × Command)) : List (Nat × Command) :=
  calls.filter fun call => call.2.actor? = some u

theorem foldl_ownCalls (hu : u ≠ "") (hanon : u ≠ anonymousUser)
    (hformed : ∀ call ∈ calls, call.2.IsFormed) (h : Shares u l l') :
    Shares u (calls.foldl next l) ((ownCalls u calls).foldl next l') := by
  unfold ownCalls
  induction calls generalizing l l' with
  | nil => exact h
  | cons call rest ih =>
    have hrest : ∀ call ∈ rest, call.2.IsFormed := fun c hc => hformed c (List.mem_cons_of_mem _ hc)
    rw [List.filter_cons, List.foldl_cons]
    by_cases hown : call.2.actor? = some u
    · rw [if_pos (decide_eq_true hown)]
      exact ih hrest (h.own hu hown rfl)
    · rw [if_neg (by simpa using hown)]
      exact ih hrest (h.other hanon hown (hformed call List.mem_cons_self))

theorem foldl_retimed (hu : u ≠ "") (hown : ∀ call ∈ calls, call.2.actor? = some u)
    (hsame : calls.map Prod.snd = calls'.map Prod.snd) (h : Shares u l l') :
    Shares u (calls.foldl next l) (calls'.foldl next l') := by
  induction calls generalizing calls' l l' with
  | nil =>
    obtain rfl : calls' = [] := List.map_eq_nil_iff.1 hsame.symm
    exact h
  | cons call rest ih =>
    cases calls' with
    | nil => cases hsame
    | cons call' rest' =>
      obtain ⟨hcall, hrest⟩ := List.cons.inj hsame
      rw [List.foldl_cons, List.foldl_cons]
      refine ih (fun c hc => hown c (List.mem_cons_of_mem _ hc)) hrest ?_
      exact h.own hu (hown call List.mem_cons_self) hcall

/-- Everything that can be asked about a user has the same answer, apart from ids and times. -/
structure LooksAlike (u : String) (l l' : Learner) : Prop where
  adaptation : ∀ domain, (l.adaptation? (.text u) domain).map (·.map Adaptation.undated) =
    (l'.adaptation? (.text u) domain).map (·.map Adaptation.undated)
  weight : ∀ domain, l.weight (.text u) domain = l'.weight (.text u) domain
  behaviors : (l.behaviorsOf (.text u)).map (·.map Behavior.undated) =
    (l'.behaviorsOf (.text u)).map (·.map Behavior.undated)
  predictions : ∀ context, l.predict (.text u) context = l'.predict (.text u) context
  preferences : (l.preferences? (.text u)).map (·.map Entries.undated) =
    (l'.preferences? (.text u)).map (·.map Entries.undated)

theorem Shares.looksAlike (h : Shares u l l') (hu : u ≠ "") : LooksAlike u l l' where
  adaptation domain := by rw [adaptation?_view, adaptation?_view, h.view]
  weight domain := by
    rw [weight_view hu, weight_view hu, adaptation?_view, adaptation?_view, h.view]
  behaviors := by rw [behaviorsOf_view, behaviorsOf_view, h.view]
  predictions context := by rw [predict_view, predict_view, h.view]
  preferences := by rw [preferences?_view, preferences?_view, h.view]

/-- **Isolation.** After any two runs in which the same is called for a user, everything that can be
asked about this user has the same answer, whatever is called for others in between, and whether or
not calls stop at a fault. -/
theorem after_isolated (config : LearningConfig) (hu : u ≠ "") (hanon : u ≠ anonymousUser)
    (hformed : ∀ call ∈ calls, call.2.IsFormed) (hformed' : ∀ call ∈ calls', call.2.IsFormed)
    (hsame : (ownCalls u calls).map Prod.snd = (ownCalls u calls').map Prod.snd) :
    LooksAlike u (after config calls) (after config calls') := by
  have hstart : Shares u (start config) (start config) :=
    ⟨rfl, fun _ hr => absurd hr List.not_mem_nil, fun _ hr => absurd hr List.not_mem_nil⟩
  have hown : ∀ call ∈ ownCalls u calls, call.2.actor? = some u :=
    fun call hcall => of_decide_eq_true (List.mem_filter.1 hcall).2
  have hpurged := foldl_ownCalls hu hanon hformed hstart
  have hretimed := foldl_retimed hu hown hsame hstart
  have hpurged' := foldl_ownCalls hu hanon hformed' hstart
  exact ((hpurged.trans hretimed).trans hpurged'.symm).looksAlike hu

/-- Whether a record of another comes in between and a malformed one makes no difference. -/
theorem after_isolated_between :
    let wish : Command := .personalize (.text "ada") (.record [("theme", .text "dark")])
    let question : Command := .behavior (.text "ada") (.text "ask") .null
    let sighting : Command := .learn (.record
      [("type", .text "personalization"), ("input", .record [("theme", .text "light")]),
        ("context", .record [("userId", .text "bob")])])
    let shared := [(0, wish), (1, sighting), (2, .learn (.record [])), (3, question)]
    let alone := [(5, wish), (8, question)]
    LooksAlike "ada" (after {} shared) (after {} alone) ∧
      (after {} shared).history.length = 2 ∧ (after {} alone).history.length = 1 := by
  intro wish question sighting shared alone
  have hsighting : sighting.IsFormed := by
    rintro es ⟨⟩
    exact .inr ⟨_, rfl⟩
  have hmalformed : (Command.learn (.record [])).IsFormed := by
    rintro es ⟨⟩
    exact .inl rfl
  have hshared : ∀ call ∈ shared, call.2.IsFormed := by
    rw [List.forall_mem_cons, List.forall_mem_cons, List.forall_mem_cons, List.forall_mem_singleton]
    exact ⟨trivial, hsighting, hmalformed, trivial⟩
  have halone : ∀ call ∈ alone, call.2.IsFormed := by
    rw [List.forall_mem_cons, List.forall_mem_singleton]
    exact ⟨trivial, trivial⟩
  refine ⟨after_isolated {} ?_ ?_ hshared halone rfl, ?_, ?_⟩ <;> decide +kernel

end KnowledgeGraph.Learner
