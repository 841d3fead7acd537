import KnowledgeGraph.Learning.Command
import KnowledgeGraph.Proofs.Attempt

/-!
# What learning alone changes

The history of a learner, its tables and its behaviours are changed by learning a record only, and
its settings by nothing (`HasCore`). All other operations keep them, also when they stop at a fault.
-/

namespace KnowledgeGraph.Learner

open Attempt

/-! ## Ids and models -/

section

variable {I : Learner → Prop}

theorem newId_keeps (hI : ∀ l n, I l → I { l with issued := n }) : Keeps I newId :=
  keeps_get_bind fun l hl => hI l _ hl

variable (hI : ∀ l models count, I l → I { l with models, modelCount := count })
include hI

theorem createModel_keeps (type parameters : Value) : Keeps I (createModel type parameters) := by
  refine Keeps.bind (keeps_modify fun l hl => hI l l.models _ hl) fun _ => ?_
  refine (keeps_lift _).bind fun parameters => keeps_get_bind fun l hl => ?_
  refine Keeps.bind (keeps_set ?_) (fun _ => (keeps_lift _).bind fun _ => keeps_pure _) l hl
  exact hI l _ l.modelCount hl

theorem storeModel_keeps (m : LearningModel) : Keeps I (storeModel m) :=
  keeps_modify fun l hl => hI l _ l.modelCount hl

theorem trainModel_keeps (id data : Value) : Keeps I (trainModel id data) := by
  refine (keeps_lift _).bind fun batch => keeps_get.bind fun _ => ?_
  refine (keeps_lift _).bind fun found => ?_
  split
  · exact (keeps_lift _).bind fun _ => keeps_throw _
  · refine (storeModel_keeps hI _).bind fun _ => (keeps_lift _).bind fun ratings => ?_
    refine keeps_get.bind fun _ => (keeps_lift _).bind fun accuracy => ?_
    exact (storeModel_keeps hI _).bind fun _ => keeps_pure _

end

/-! ## Adaptations -/

/-- A property of learners that adaptations may be stored under, all of which have a property of their
own: those that are stored already, a new one, and what becomes of one. -/
structure Stores (I : Learner → Prop) (P : Adaptation → Prop) : Prop where
  issue : ∀ l n, I l → I { l with issued := n }
  put : ∀ l key a, I l → P a → I { l with adaptations := l.adaptations.put key a }
  found : ∀ l key a, I l → l.adaptations.lookup? key = some a → P a
  new : ∀ id userId domain x now,
    P { id, userId, domain, effectiveness := clampUnit x, lastUpdated := now }
  adopt : ∀ a es, P a → P (a.adopt es)
  recommend : ∀ a es x now, P a → P (a.recommend es x now)
  nudge : ∀ a delta now, P a → P (a.nudge delta now)

theorem Stores.any {I : Learner → Prop} (hid : ∀ l n, I l → I { l with issued := n })
    (hI : ∀ l adaptations, I l → I { l with adaptations }) : Stores I fun _ => True where
  issue := hid
  put l _ _ hl _ := hI l _ hl
  found _ _ _ _ _ := trivial
  new _ _ _ _ _ := trivial
  adopt _ _ _ := trivial
  recommend _ _ _ _ _ := trivial
  nudge _ _ _ _ := trivial

namespace Stores

variable {I : Learner → Prop} {P : Adaptation → Prop} (h : Stores I P)
include h

theorem storeAdaptation (user domain : Value) {a : Adaptation} (ha : P a) :
    Keeps I (storeAdaptation user domain a) :=
  (keeps_lift _).bind fun _ => keeps_modify fun l hl => h.put l _ a hl ha

theorem obtainAdaptation (user domain : Value) : Keeps I (obtainAdaptation user domain) := by
  refine (keeps_lift _).bind fun key => keeps_get.bind fun l => ?_
  split
  · exact keeps_pure _
  · refine (newId_keeps h.issue).bind fun id => keeps_get_bind fun l hl => ?_
    refine keeps_lift_bind (fun effectiveness _ => ?_) l hl
    refine Keeps.bind (keeps_set (h.put l _ _ hl (h.new _ _ _ _ _))) fun _ => ?_
    exact (keeps_lift _).bind fun _ => keeps_pure _

theorem obtained (user domain : Value) {l : Learner} (hl : I l) (a : Adaptation)
    (ha : ((Learner.obtainAdaptation user domain).runOn l).1 = .ok a) : P a := by
  rcases hrun : (Learner.obtainAdaptation user domain).runOn l with ⟨outcome, l'⟩
  rw [hrun] at ha
  cases ha
  unfold Learner.obtainAdaptation at hrun
  obtain ⟨key, -, hrun⟩ := lift_bind_eq_ok.1 hrun
  obtain ⟨_, _, hget, hrun⟩ := bind_eq_ok.1 hrun
  cases hget
  split at hrun
  · rename_i hfound
    cases hrun
    exact h.found l key a hl hfound
  · obtain ⟨_, _, -, hrun⟩ := bind_eq_ok.1 hrun
    obtain ⟨_, _, -, hrun⟩ := bind_eq_ok.1 hrun
    obtain ⟨x, -, hrun⟩ := lift_bind_eq_ok.1 hrun
    obtain ⟨_, _, -, hrun⟩ := bind_eq_ok.1 hrun
    obtain ⟨_, -, hrun⟩ := lift_bind_eq_ok.1 hrun
    cases hrun
    exact h.new _ _ _ _ _

theorem adopted {a : Adaptation} (data : Value) (ha : P a) :
    P (match data with | .map es => a.adopt es | _ => a) := by
  split
  · exact h.adopt a _ ha
  · exact ha

theorem adapt (user domain data : Value) : Keeps I (adapt user domain data) := by
  refine (h.obtainAdaptation user domain).bind_of (fun l hl => h.obtained user domain hl)
    fun a ha => ?_
  have hadopted := h.adopted data ha
  refine (h.storeAdaptation user domain hadopted).bind fun _ => ?_
  refine keeps_get.bind fun _ => (keeps_lift _).bind fun _ => keeps_get.bind fun _ => ?_
  exact (h.storeAdaptation user domain (h.recommend _ _ _ _ hadopted)).bind fun _ => keeps_pure _

theorem nudge_of (feedback : Feedback) (context : Slot LearningContext) :
    Keeps I (Learner.nudge feedback context) := by
  refine (keeps_lift _).bind fun context => ?_
  refine (h.obtainAdaptation _ _).bind_of (fun l hl => h.obtained _ _ hl) fun a ha => ?_
  refine keeps_get.bind fun l => (keeps_lift _).bind fun delta => ?_
  exact (h.storeAdaptation _ _ (h.nudge a delta l.now ha)).bind fun _ => keeps_lift _

end Stores

/-! ## Preferences and behaviours -/

section

variable {I : Learner → Prop}

theorem mergePreferences_keeps (hI : ∀ l preferences, I l → I { l with preferences })
    (user given : Value) : Keeps I (mergePreferences user given) := by
  refine (keeps_lift _).bind fun key => keeps_get.bind fun l => ?_
  dsimp only
  split
  · exact Keeps.bind (keeps_modify fun l hl => hI l _ hl) fun _ => keeps_throw _
  · refine keeps_get.bind fun _ => ?_
    exact Keeps.bind (keeps_modify fun l hl => hI l _ hl) fun _ => keeps_pure _

theorem noteBehavior_keeps (hid : ∀ l n, I l → I { l with issued := n })
    (hI : ∀ l behaviors, I l → I { l with behaviors }) (user : Value) (action : String)
    (context : Entries) : Keeps I (noteBehavior user action context) := by
  have hstore (key : Scalar) (b : Behavior) : Keeps I (storeBehavior key b) :=
    keeps_modify fun l hl => hI l _ hl
  refine (keeps_lift _).bind fun key => keeps_get.bind fun l => ?_
  split
  · exact (hstore _ _).bind fun _ => keeps_get.bind fun _ => (keeps_lift _).bind fun _ => hstore _ _
  · exact (newId_keeps hid).bind fun _ => keeps_get.bind fun _ => hstore _ _

end

/-! ## The core -/

/-- The settings of a learner, its history, and what follows from the history. -/
structure Core where
  config : LearningConfig
  history : List LearningRecord
  tables : Tables Float
  behaviors : Table Scalar (Table String Behavior)

def core (l : Learner) : Core := ⟨l.config, l.history, l.tables, l.behaviors⟩

/-- The learner has the given core. -/
def HasCore (c : Core) (l : Learner) : Prop := l.core = c

/-- The attempt leaves the core of the learner as it is. -/
def KeepsCore {α : Type} (x : Attempt Learner α) : Prop := ∀ c, Keeps (HasCore c) x

/-! ## Adaptations and preferences -/

theorem adapt_keepsCore (user domain data : Value) : KeepsCore (adapt user domain data) :=
  fun _ => (Stores.any (fun _ _ hl => hl) fun _ _ hl => hl).adapt user domain data

theorem nudge_keepsCore (feedback : Feedback) (context : Slot LearningContext) :
    KeepsCore (nudge feedback context) :=
  fun _ => (Stores.any (fun _ _ hl => hl) fun _ _ hl => hl).nudge_of feedback context

theorem mergePreferences_keepsCore (user given : Value) :
    KeepsCore (mergePreferences user given) :=
  fun _ => mergePreferences_keeps (fun _ _ hl => hl) user given

/-! ## Records -/

/-- The processing of a record keeps what each operation keeps that it may be made of; these are for
the user of the record. -/
theorem process_keeps {I : Learner → Prop} {r : LearningRecord} (htables : Keeps I (learnTables r))
    (hmerge : ∀ user given, r.userId = .ok user → Keeps I (mergePreferences user given))
    (hnote : ∀ user action context, r.userId = .ok user →
      Keeps I (noteBehavior user action context))
    (hadapt : ∀ user domain data, r.userId = .ok user → Keeps I (adapt user domain data)) :
    Keeps I (process r) := by
  unfold process
  split
  · exact htables
  · exact htables
  · exact htables
  · refine keeps_lift_bind fun user huser => ?_
    split
    · exact (hmerge user _ huser).discard
    · exact keeps_pure _
  · refine keeps_lift_bind fun user huser => ?_
    split
    · exact keeps_pure _
    · exact keeps_pure _
    · exact (keeps_lift _).bind fun action => hnote _ action _ huser
  · refine keeps_lift_bind fun user huser => ?_
    dsimp only
    split
    · exact (keeps_lift _).bind fun domain => (hadapt user _ _ huser).discard
    · exact keeps_pure _
  · exact keeps_pure _

/-- The records that set preferences, those that refresh an adaptation, and those of custom types
are for other parts of the learner. -/
theorem process_keepsCore {r : LearningRecord}
    (htype : r.learningType = .personalization ∨ r.learningType = .adaptive ∨
      r.learningType = .custom) : KeepsCore (process r) := by
  intro c
  unfold process
  obtain htype | htype | htype := htype
  · rw [htype]
    refine (keeps_lift _).bind fun user => ?_
    split
    · exact (mergePreferences_keepsCore _ _ c).discard
    · exact keeps_pure _
  · rw [htype]
    refine (keeps_lift _).bind fun user => ?_
    dsimp only
    split
    · exact (keeps_lift _).bind fun domain => (adapt_keepsCore _ _ _ c).discard
    · exact keeps_pure _
  · rw [htype]
    exact keeps_pure _

end KnowledgeGraph.Learner
