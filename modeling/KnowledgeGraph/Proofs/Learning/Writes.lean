import KnowledgeGraph.Proofs.Learning.Adapting

/-!
# What calls write

Two tables of the learner are written to from several sides: preferences by calls and by records,
adaptations by calls, by records and by feedback. What a call merges into the preferences of a user
and which adaptation it is about can be read off the call (`Command.merging?`,
`Command.addressing?`), and a call that returns does just this to the two tables (`perform_eq_ok`).
-/

namespace KnowledgeGraph

open Attempt

/-! ## What records and calls write -/

/-- What a record merges into the preferences of its user: personalization its input, if this is a
map and the user does not count as absent. -/
def LearningRecord.merging? (r : LearningRecord) : Option (Scalar × Entries) :=
  match r.learningType, r.userId, r.input with
  | .personalization, .ok (.scalar u), .map es => if u.isAbsent then none else some (u, es)
  | _, _, _ => none

namespace Learner

/-- An adaptation that a call is about. -/
structure Addressing where
  user : Scalar
  domain : Scalar
  /-- The data to adopt; none for feedback. -/
  data? : Option Entries

def Addressing.pair (ad : Addressing) : Scalar × Scalar := (ad.user, ad.domain)

end Learner

open Learner (Addressing)

/-- The adaptation that a record refreshes: that of its user in the domain that its input names, if
neither counts as absent. -/
def LearningRecord.addressing? (r : LearningRecord) : Option Addressing :=
  let domain := Entries.field r.payload "domain"
  match r.learningType, r.userId with
  | .adaptive, .ok (.scalar u) =>
    if u.isAbsent || domain.isAbsent then none else some ⟨u, .text domain.display, some r.payload⟩
  | _, _ => none

namespace Learner

/-- What a call merges into the preferences of a user. -/
def Command.merging? : Command → Option (Scalar × Entries)
  | .personalize (.scalar u) given => some (u, given.toEntries.1)
  | .learn record => match LearningRecord.ofRecord record with
    | .ok r => r.merging?
    | .error _ => none
  | _ => none

/-- The adaptation that a call is about. -/
def Command.addressing? : Command → Option Addressing
  | .adapt (.scalar u) (.scalar d) data => some ⟨u, d, some (data.entries?.getD [])⟩
  | .feedback _ context => match readContext context with
    | .ok (.known c) => match feedbackUser c, feedbackTask c with
      | .scalar u, .scalar d => some ⟨u, d, none⟩
      | _, _ => none
    | _ => none
  | .learn record => match LearningRecord.ofRecord record with
    | .ok r => r.addressing?
    | .error _ => none
  | _ => none

/-! ## What is done to the tables -/

variable {config : LearningConfig} {l l' m : Learner} {r : LearningRecord}

/-- The preferences after a merge at a time. -/
def mergeInto (now : Nat) (t : Table Scalar Entries) : Option (Scalar × Entries) →
    Table Scalar Entries
  | none => t
  | some (u, given) =>
    t.put u (Entries.set (Table.merge ((t.lookup? u).getD []) given) "lastUpdated" (.count now))

/-- What the records of a user recommend. -/
def recommended (l : Learner) (u : Scalar) : Entries :=
  match l.recommendations (.scalar u) with
  | .ok (es, _) => es
  | .error _ => []

def adopted (data : Entries) : Entries := Table.erase data (.text "domain")

/-- The parameters of an adaptation after data is adopted and recommendations are set. -/
def renewed (recommended old : Entries) : Option Entries → Entries
  | none => old
  | some data =>
    Entries.set (Table.merge old (adopted data)) "recommendations" (.map recommended)

/-- The adaptation was in the table, or it is new. -/
def Addressing.Finds (ad : Addressing) (t : Table (Scalar × Scalar) Adaptation) (a : Adaptation) :
    Prop :=
  t.lookup? ad.pair = some a ∨ t.lookup? ad.pair = none ∧
    a.userId = .scalar ad.user ∧ a.domain = .scalar ad.domain ∧ a.parameters = []

/-- The adaptation stays the one of its user in its domain. -/
structure SameAdaptation (a a' : Adaptation) : Prop where
  id : a'.id = a.id
  userId : a'.userId = a.userId
  domain : a'.domain = a.domain

/-- What is done to the adaptations: the one that is addressed is found or created, and is stored
with its parameters renewed. -/
def Renews (l l' : Learner) : Option Addressing → Prop
  | none => l'.adaptations = l.adaptations
  | some ad => ∃ a a', ad.Finds l.adaptations a ∧ SameAdaptation a a' ∧
    a'.parameters = renewed (l'.recommended ad.user) a.parameters ad.data? ∧
    l'.adaptations = l.adaptations.put ad.pair a'

/-- What is done to the two tables. -/
structure Writes (merging? : Option (Scalar × Entries)) (addressing? : Option Addressing)
    (l l' : Learner) : Prop where
  preferences : l'.preferences = mergeInto l.now l.preferences merging?
  adaptations : Renews l l' addressing?

/-- The learner has the given tables. -/
def HasTables (preferences : Table Scalar Entries)
    (adaptations : Table (Scalar × Scalar) Adaptation) (l : Learner) : Prop :=
  l.preferences = preferences ∧ l.adaptations = adaptations

theorem writes_none {α : Type} {x : Attempt Learner α}
    (hx : Keeps (HasTables l.preferences l.adaptations) x) : Writes none none l (x.runOn l).2 :=
  have h := hx l ⟨rfl, rfl⟩
  ⟨h.1, h.2⟩

/-! ## Single operations -/

theorem mergePreferences_eq_ok {user given : Value} {es : Entries}
    (h : (mergePreferences user given).runOn l = (.ok es, l')) :
    ∃ u, user = .scalar u ∧ Writes (some (u, given.toEntries.1)) none l l' := by
  obtain ⟨u, hu, h⟩ := lift_bind_eq_ok.1 h
  refine ⟨u, Value.eq_scalar_of_toKey hu, ?_⟩
  rw [runOn_bind, runOn_get] at h
  dsimp only at h
  split at h
  · cases h
  · cases h
    exact ⟨rfl, rfl⟩

/-- What is obtained is of a user and a domain that can be keys. Only the ids and the adaptations
may change. -/
theorem obtainAdaptation_eq_ok {user domain : Value} {a : Adaptation}
    (h : (obtainAdaptation user domain).runOn l = (.ok a, l')) :
    ∃ u d n t, user = .scalar u ∧ domain = .scalar d ∧
      l' = { l with issued := n, adaptations := t } ∧ Obtained l.config u d a l.adaptations t := by
  have hkeys : ∃ u d, user = .scalar u ∧ domain = .scalar d := by
    obtain ⟨key, hkey, -⟩ := lift_bind_eq_ok.1 h
    obtain ⟨u, hu, hkey⟩ := Except.bind_eq_ok.1 hkey
    obtain ⟨d, hd, -⟩ := Except.bind_eq_ok.1 hkey
    exact ⟨u, d, Value.eq_scalar_of_toKey hu, Value.eq_scalar_of_toKey hd⟩
  obtain ⟨u, d, rfl, rfl⟩ := hkeys
  refine ⟨u, d, ?_⟩
  cases hfound : l.adaptations.lookup? (u, d) with
  | some a' =>
    rw [obtainAdaptation_found hfound] at h
    cases h
    exact ⟨l.issued, l.adaptations, rfl, rfl, rfl, .inl ⟨hfound, rfl⟩⟩
  | none =>
    cases hdefault : l.config.defaultEffectiveness.toFloat with
    | ok x =>
      obtain ⟨a', n, hfresh, hrun⟩ := obtainAdaptation_created hdefault hfound
      rw [hrun] at h
      -- It comes out only if user and domain can be mentioned.
      cases hmention : Value.mention [.scalar u, .scalar d] with
      | error f =>
        rw [hmention] at h
        cases h
      | ok _ =>
        rw [hmention] at h
        cases h
        exact ⟨n, _, rfl, rfl, rfl, .inr ⟨hfound, hfresh, rfl⟩⟩
    | error f =>
      -- Without a default there is no new adaptation.
      unfold obtainAdaptation newId at h
      rw [runOn_bind, runOn_lift] at h
      change Attempt.runOn _ l = _ at h
      simp only [runOn_bind, runOn_get, hfound, runOn_set, runOn_pure, runOn_lift, hdefault] at h
      cases h

theorem Obtained.finds {u d : Scalar} {a : Adaptation} {t t' : Table (Scalar × Scalar) Adaptation}
    (h : Obtained config u d a t t') (data? : Option Entries) :
    Addressing.Finds ⟨u, d, data?⟩ t a := by
  obtain ⟨hfound, -⟩ | ⟨hnone, hfresh, -⟩ := h
  · exact .inl hfound
  · exact .inr ⟨hnone, hfresh.userId, hfresh.domain, hfresh.parameters⟩

/-- The first storing of an adaptation leaves no trace behind the second one. -/
theorem Obtained.put {u d : Scalar} {a : Adaptation} {t t' : Table (Scalar × Scalar) Adaptation}
    (h : Obtained config u d a t t') (hsame : Key.same (u, d) (u, d) = true) (a' : Adaptation) :
    t'.put (u, d) a' = t.put (u, d) a' := by
  obtain ⟨-, rfl⟩ | ⟨-, -, rfl⟩ := h
  · rfl
  · exact Table.put_put hsame t a a'

/-- An adaptation that returns has refreshed one adaptation, and has written nothing else. -/
theorem adapt_eq_ok {user domain data : Value} {a : Adaptation}
    (h : (adapt user domain data).runOn l = (.ok a, l')) :
    ∃ u d, user = .scalar u ∧ domain = .scalar d ∧
      (Key.same (u, d) (u, d) = true →
        Writes none (some ⟨u, d, some (data.entries?.getD [])⟩) l l') := by
  obtain ⟨old, m, hobtain, -⟩ := bind_eq_ok.1 h
  obtain ⟨u, d, n, t, rfl, rfl, rfl, hobtained⟩ := obtainAdaptation_eq_ok hobtain
  refine ⟨u, d, rfl, rfl, fun hsame => ?_⟩
  rw [adapt_runOn hobtain] at h
  dsimp only at h
  split at h
  · cases h
  · rename_i es c hrecommended
    cases h
    have hsets : recommended { l with
          issued := n
          adaptations := (t.put (u, d) (old.adopt (data.entries?.getD []))).put (u, d)
            ((old.adopt (data.entries?.getD [])).recommend es c l.now) } u = es := by
      -- What is recommended follows from the history, which adapting leaves alone.
      show recommended l u = es
      unfold recommended
      rw [hrecommended]
    refine ⟨rfl, old, (old.adopt (data.entries?.getD [])).recommend es c l.now,
      hobtained.finds _, ⟨rfl, rfl, rfl⟩, ?_, ?_⟩
    · rw [hsets]
      rfl
    · show Table.put (Table.put t (u, d) _) (u, d) _ = _
      rw [Table.put_put hsame, hobtained.put hsame]
      rfl

theorem nudge_eq_ok {f : Feedback} {c : LearningContext}
    (h : (nudge f (.known c)).runOn l = (.ok (), l')) :
    ∃ u d, feedbackUser c = .scalar u ∧ feedbackTask c = .scalar d ∧
      (Key.same (u, d) (u, d) = true → Writes none (some ⟨u, d, none⟩) l l') := by
  obtain ⟨_, ⟨⟩, h⟩ := lift_bind_eq_ok.1 h
  obtain ⟨old, m, hobtain, h⟩ := bind_eq_ok.1 h
  obtain ⟨u, d, n, t, huser, htask, rfl, hobtained⟩ := obtainAdaptation_eq_ok hobtain
  refine ⟨u, d, huser, htask, fun hsame => ?_⟩
  obtain ⟨_, _, hget, h⟩ := bind_eq_ok.1 h
  cases hget
  obtain ⟨delta, -, h⟩ := lift_bind_eq_ok.1 h
  have hstore (a : Adaptation) (l : Learner) :
      (storeAdaptation (.scalar u) (.scalar d) a).runOn l =
        (.ok (), { l with adaptations := l.adaptations.put (u, d) a }) := rfl
  rw [huser, htask] at h
  obtain ⟨_, _, hstored, h⟩ := bind_eq_ok.1 h
  rw [hstore] at hstored
  cases hstored
  obtain rfl := (congrArg Prod.snd h :)
  exact ⟨rfl, old, old.nudge delta l.now, hobtained.finds none, ⟨rfl, rfl, rfl⟩, rfl,
    hobtained.put hsame _⟩

/-! ## Records -/

theorem process_personalization (htype : r.learningType = .personalization)
    (h : (process r).runOn l = (.ok (), l')) : Writes r.merging? none l l' := by
  unfold process at h
  rw [htype] at h
  obtain ⟨user, huser, h⟩ := lift_bind_eq_ok.1 h
  unfold LearningRecord.merging?
  rw [htype, huser]
  split at h
  · rename_i hguard
    obtain ⟨hpresent, hmap⟩ := Bool.and_eq_true_iff.1 hguard
    rw [discard_eq] at h
    obtain ⟨merged, m, hmerge, h⟩ := bind_eq_ok.1 h
    cases h
    obtain ⟨u, rfl, hwrites⟩ := mergePreferences_eq_ok hmerge
    rw [Bool.not_eq_true'] at hpresent
    have hpresent : ¬ u.isAbsent = true := Bool.eq_false_iff.1 hpresent
    cases hinput : r.input with
    | scalar _ | list _ =>
      rw [hinput] at hmap
      cases hmap
    | map es =>
      rw [hinput] at hwrites
      dsimp only
      rwa [if_neg hpresent]
  · rename_i hguard
    cases h
    split
    · rename_i u es _ heq hinput
      cases heq
      have habsent : u.isAbsent = true := by
        by_contra hpresent
        rw [hinput] at hguard
        refine hguard (Bool.and_eq_true_iff.2 ⟨?_, rfl⟩)
        rw [Bool.not_eq_true']
        exact Bool.eq_false_iff.2 hpresent
      rw [if_pos habsent]
      exact ⟨rfl, rfl⟩
    · exact ⟨rfl, rfl⟩

theorem process_adaptive (htype : r.learningType = .adaptive)
    (h : (process r).runOn l = (.ok (), l'))
    (hpair : ∀ ad, r.addressing? = some ad → Key.same ad.pair ad.pair = true) :
    Writes none r.addressing? l l' := by
  unfold process at h
  rw [htype] at h
  obtain ⟨user, huser, h⟩ := lift_bind_eq_ok.1 h
  unfold LearningRecord.addressing? at hpair ⊢
  rw [htype, huser] at hpair ⊢
  dsimp only at h hpair ⊢
  split at h
  · rename_i hguard
    obtain ⟨domain, hdomain, h⟩ := lift_bind_eq_ok.1 h
    obtain ⟨-, rfl⟩ := Value.toText_eq_ok.1 hdomain
    rw [discard_eq] at h
    obtain ⟨a, m, hadapt, h⟩ := bind_eq_ok.1 h
    cases h
    obtain ⟨u, d, rfl, hd, hwrites⟩ := adapt_eq_ok hadapt
    cases hd
    rw [← Bool.not_or, Bool.not_eq_true'] at hguard
    have hnot : ¬ (u.isAbsent || (Entries.field r.payload "domain").isAbsent) = true :=
      Bool.eq_false_iff.1 hguard
    dsimp only at hpair ⊢
    rw [if_neg hnot] at hpair ⊢
    exact hwrites (hpair _ rfl)
  · rename_i hguard
    cases h
    split
    · rename_i u _ heq
      cases heq
      have habsent : (u.isAbsent || (Entries.field r.payload "domain").isAbsent) = true := by
        by_contra hnot
        rw [← Bool.not_or, Bool.not_eq_true'] at hguard
        exact hguard (Bool.eq_false_iff.2 hnot)
      rw [if_pos habsent]
      exact ⟨rfl, rfl⟩
    · exact ⟨rfl, rfl⟩

/-- **Records.** A record that is processed writes what can be read off it. -/
theorem process_eq_ok (h : (process r).runOn l = (.ok (), l'))
    (hpair : ∀ ad, r.addressing? = some ad → Key.same ad.pair ad.pair = true) :
    Writes r.merging? r.addressing? l l' := by
  have hmerging (htype : r.learningType ≠ .personalization) : r.merging? = none := by
    unfold LearningRecord.merging?
    split
    · exact absurd ‹_› htype
    · rfl
  have haddressing (htype : r.learningType ≠ .adaptive) : r.addressing? = none := by
    unfold LearningRecord.addressing?
    dsimp only
    split
    · exact absurd ‹_› htype
    · rfl
  by_cases hpersonal : r.learningType = .personalization
  · rw [haddressing (by rw [hpersonal]; exact nofun)]
    exact process_personalization hpersonal h
  · by_cases hadaptive : r.learningType = .adaptive
    · rw [hmerging hpersonal]
      exact process_adaptive hadaptive h hpair
    · rw [hmerging hpersonal, haddressing hadaptive]
      have hkeeps : Keeps (HasTables l.preferences l.adaptations) (process r) := by
        unfold process
        split
        · exact fun _ hl => hl
        · exact fun _ hl => hl
        · exact fun _ hl => hl
        · exact absurd ‹_› hpersonal
        · refine (keeps_lift _).bind fun user => ?_
          split
          · exact keeps_pure _
          · exact keeps_pure _
          · exact (keeps_lift _).bind fun _ =>
              noteBehavior_keeps (fun _ _ hl => hl) (fun _ _ hl => hl) _ _ _
        · exact absurd ‹_› hadaptive
        · exact keeps_pure _
      have hwrites := writes_none hkeeps
      rwa [h] at hwrites

theorem learn_writes {r' : LearningRecord} (h : (learn r).runOn l = (.ok r', l'))
    (hpair : ∀ ad, r.addressing? = some ad → Key.same ad.pair ad.pair = true) :
    Writes r.merging? r.addressing? l l' := by
  rw [learn_runOn] at h
  obtain ⟨_, m, hprocess, h⟩ := bind_eq_ok.1 h
  obtain ⟨_, -, h⟩ := lift_bind_eq_ok.1 h
  cases h
  -- The stamp touches neither the type, nor the context, nor the input.
  have hwrites := process_eq_ok (r := l.stamp r) hprocess hpair
  exact ⟨hwrites.preferences, hwrites.adaptations⟩

/-! ## Calls -/

/-- The record of feedback writes nothing, and the nudge is about the adaptation of the context. -/
theorem learnFeedback_writes {verdict context : Value}
    (h : (learnFeedback verdict context).runOn l = (.ok r, l'))
    (hpair : ∀ ad, (Command.feedback verdict context).addressing? = some ad →
      Key.same ad.pair ad.pair = true) :
    Writes none (Command.feedback verdict context).addressing? l l' := by
  obtain ⟨_, -, h⟩ := lift_bind_eq_ok.1 h
  obtain ⟨slot, hslot, h⟩ := lift_bind_eq_ok.1 h
  obtain ⟨f, -, h⟩ := lift_bind_eq_ok.1 h
  obtain ⟨r', m, hlearn, h⟩ := bind_eq_ok.1 h
  obtain ⟨_, l'', hnudge, h⟩ := bind_eq_ok.1 h
  cases h
  have hrecord := learn_writes hlearn nofun
  cases slot with
  | raw v =>
    obtain ⟨_, ⟨⟩, -⟩ := lift_bind_eq_ok.1 hnudge
  | known c =>
    obtain ⟨u, d, hu, hd, hwrites⟩ := nudge_eq_ok hnudge
    unfold Command.addressing? at hpair ⊢
    dsimp only at hpair ⊢
    rw [hslot] at hpair ⊢
    dsimp only at hpair ⊢
    rw [hu, hd] at hpair ⊢
    obtain ⟨hpreferences, a, a', hfinds, hrest⟩ := hwrites (hpair _ rfl)
    have hadaptations : m.adaptations = l.adaptations := hrecord.adaptations
    rw [hadaptations] at hfinds hrest
    exact ⟨hpreferences.trans hrecord.preferences, a, a', hfinds, hrest⟩

/-- **Calls.** A call that returns does to the two tables what can be read off it. -/
theorem perform_eq_ok {c : Command} {v : Value} (h : (perform c).runOn l = (.ok v, l'))
    (hpair : ∀ ad, c.addressing? = some ad → Key.same ad.pair ad.pair = true) :
    Writes c.merging? c.addressing? l l' := by
  have hstill (hkeeps : Keeps (HasTables l.preferences l.adaptations) (perform c)) :
      Writes none none l l' := by
    have hwrites := writes_none hkeeps
    rwa [h] at hwrites
  cases c with
  | learn record =>
    obtain ⟨r', m, hlearn, hwrite⟩ := bind_eq_ok.1 h
    obtain rfl : m = l' := congrArg Prod.snd hwrite
    obtain ⟨r, hr, hlearn⟩ := lift_bind_eq_ok.1 hlearn
    unfold Command.addressing? at hpair ⊢
    unfold Command.merging?
    dsimp only at hpair ⊢
    rw [hr] at hpair ⊢
    exact learn_writes hlearn hpair
  | feedback verdict context =>
    obtain ⟨r', m, hlearn, hwrite⟩ := bind_eq_ok.1 h
    obtain rfl : m = l' := congrArg Prod.snd hwrite
    exact learnFeedback_writes hlearn hpair
  | behavior user action context =>
    obtain ⟨b, m, hbehavior, h⟩ := bind_eq_ok.1 h
    cases h
    obtain ⟨r, hr, hbehavior⟩ := lift_bind_eq_ok.1 hbehavior
    obtain ⟨_, m, hlearn, hanswer⟩ := bind_eq_ok.1 hbehavior
    obtain rfl : m = l' := congrArg Prod.snd hanswer
    rw [discard_eq] at hlearn
    obtain ⟨r', m', hlearn, h⟩ := bind_eq_ok.1 hlearn
    cases h
    obtain ⟨-, -, _, -, rfl⟩ := behaviorRecord_eq_ok hr
    exact learn_writes hlearn nofun
  | adapt user domain data =>
    obtain ⟨a, m, hadapt, h⟩ := bind_eq_ok.1 h
    cases h
    obtain ⟨u, d, rfl, rfl, hwrites⟩ := adapt_eq_ok hadapt
    exact hwrites (hpair _ rfl)
  | personalize user given =>
    obtain ⟨a, m, hmerge, h⟩ := bind_eq_ok.1 h
    cases h
    obtain ⟨u, rfl, hwrites⟩ := mergePreferences_eq_ok hmerge
    exact hwrites
  | _ =>
    exact hstill (perform_keeps (fun _ _ _ hl => hl) (fun r hr => hr.elim) nofun nofun nofun)

end Learner

end KnowledgeGraph
