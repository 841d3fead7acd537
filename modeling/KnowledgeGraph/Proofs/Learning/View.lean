import KnowledgeGraph.Learning.Learner
import KnowledgeGraph.Proofs.Except
import KnowledgeGraph.Proofs.Learning.History

/-!
# What a user sees of a learner

The view of a user is the part of a learner that is about this user, without generated ids and times
(`Learner.view`). It determines all that can be asked about the user: adaptations and weights
(`adaptation?_view`), recommendations (`recommendations_view`), behaviours and predictions
(`behaviorsOf_view`, `predict_view`), and preferences (`preferences?_view`).
-/

namespace KnowledgeGraph

/-! ## Without ids and times -/

/-- A record without its time and session. -/
def LearningRecord.undated (r : LearningRecord) : LearningRecord :=
  { r with timestamp := .null, sessionId := .null }

/-- An adaptation without its id and time. -/
def Adaptation.undated (a : Adaptation) : Adaptation := { a with id := "", lastUpdated := 0 }

/-- A behaviour without its id and times. -/
def Behavior.undated (b : Behavior) : Behavior :=
  { b with id := "", discovered := 0, lastSeen := 0 }

/-- The value of a preference, none for the time of the preferences. -/
def Entries.blankTime (k : Scalar) (v : Value) : Value :=
  if k = .text "lastUpdated" then .null else v

def Entries.undated (es : Entries) : Entries := Table.mapValues blankTime es

section

variable {a a' : Adaptation}

theorem Adaptation.adopt_undated (h : a.undated = a'.undated) (given : Entries) :
    (a.adopt given).undated = (a'.adopt given).undated :=
  congrArg (adopt · given) h

theorem Adaptation.recommend_undated (h : a.undated = a'.undated) (es : Entries)
    (confidence : Float) (now now' : Nat) : (a.recommend es confidence now).undated =
      (a'.recommend es confidence now').undated :=
  congrArg (recommend · es confidence 0) h

theorem Adaptation.nudge_undated (h : a.undated = a'.undated) (delta : Float) (now now' : Nat) :
    (a.nudge delta now).undated = (a'.nudge delta now').undated :=
  congrArg (nudge · delta 0) h

theorem Behavior.count_undated {b b' : Behavior} (h : b.undated = b'.undated) :
    b.count.undated = b'.count.undated :=
  congrArg count h

end

section

variable {es es' : Entries}

theorem Entries.undated_put (es : Entries) (k : Scalar) (v : Value) :
    undated (es.put k v) = Table.put es.undated k (blankTime k v) := by
  refine Table.mapValues_put (fun j hj => ?_) es v
  funext w
  exact if_congr (Key.eq_text_congr hj) rfl rfl

theorem Entries.merge_undated (h : es.undated = es'.undated) (given : Entries) :
    undated (Table.merge es given) = undated (Table.merge es' given) := by
  induction given generalizing es es' with
  | nil => exact h
  | cons e rest ih =>
    have hput : undated (es.put e.1 e.2) = undated (es'.put e.1 e.2) := by
      rw [undated_put, undated_put, h]
    exact ih hput

theorem Entries.stamp_undated (h : es.undated = es'.undated) (v v' : Value) :
    undated (es.set "lastUpdated" v) = undated (es'.set "lastUpdated" v') := by
  unfold Entries.set
  rw [undated_put, undated_put, h]
  rfl

end

/-! ## Filters and images -/

theorem Except.filterE_map {α β : Type} {f : α → β} {test : β → Except Fault Bool} (xs : List α) :
    filterE test (xs.map f) = (filterE (fun x => test (f x)) xs).map (List.map f) := by
  induction xs with
  | nil => rfl
  | cons x xs ih =>
    rw [List.map_cons, filterE, filterE, ih]
    cases test (f x) with
    | error e => rfl
    | ok b =>
      cases filterE (fun x => test (f x)) xs with
      | error e => rfl
      | ok ys => cases b <;> rfl

theorem Except.map_bind {α β γ : Type} (g : α → β) (x : Except Fault α) (h : β → Except Fault γ) :
    x.map g >>= h = x >>= fun a => h (g a) := by
  cases x <;> rfl

namespace Learner

variable {u : String} {l : Learner}

/-! ## The view -/

def isUser (u : String) (k : Scalar) : Bool := k = .text u

@[simp] theorem isUser_self : isUser u (.text u) = true := decide_eq_true rfl

theorem isUser_congr {j k : Scalar} (h : Key.same j k = true) : isUser u j = isUser u k :=
  decide_eq_decide.2 (Key.eq_text_congr h)

/-- The part of a learner that is about one user, without generated ids and times. -/
structure View where
  config : LearningConfig
  records : List LearningRecord
  adaptations : Table (Scalar × Scalar) Adaptation
  behaviors : Table String Behavior
  preferences : Option Entries

def recordsBy (u : String) (rs : List LearningRecord) : List LearningRecord :=
  rs.filter fun r => r.user? = some u

def adaptationsBy (u : String) (t : Table (Scalar × Scalar) Adaptation) :
    Table (Scalar × Scalar) Adaptation := t.filter fun e => isUser u e.1.1

def behaviorsBy (u : String) (t : Table Scalar (Table String Behavior)) : Table String Behavior :=
  (t.lookup? (.text u)).getD []

def view (u : String) (l : Learner) : View where
  config := l.config
  records := (recordsBy u l.history).map LearningRecord.undated
  adaptations := (adaptationsBy u l.adaptations).mapValues fun _ => Adaptation.undated
  behaviors := (behaviorsBy u l.behaviors).mapValues fun _ => Behavior.undated
  preferences := (l.preferences.lookup? (.text u)).map Entries.undated

/-- It can be told of each record whose it is. -/
def IsReadable (l : Learner) : Prop := ∀ r ∈ l.history, ∃ v, r.userId = .ok v

theorem IsReadable.concat (h : l.IsReadable) {r : LearningRecord} (hr : ∃ v, r.userId = .ok v) :
    IsReadable { l with history := l.history ++ [r] } := by
  intro r' hr'
  rcases List.mem_append.1 hr' with hr' | hr'
  · exact h r' hr'
  · rw [List.mem_singleton.1 hr']
    exact hr

/-! ## Changes -/

theorem view_concat (r : LearningRecord) :
    view u { l with history := l.history ++ [r] } = { view u l with
      records := if r.user? = some u then (view u l).records ++ [r.undated]
        else (view u l).records } := by
  unfold view recordsBy
  simp only [List.filter_append, List.map_append]
  by_cases hr : r.user? = some u
  · simp [hr]
  · simp [hr]

theorem view_putAdaptation (key : Scalar × Scalar) (a : Adaptation) :
    view u { l with adaptations := l.adaptations.put key a } = { view u l with
      adaptations := if isUser u key.1 then (view u l).adaptations.put key a.undated
        else (view u l).adaptations } := by
  have hpart := Table.filter_put (P := fun k : Scalar × Scalar => isUser u k.1) (k := key)
    (fun j hj => isUser_congr (Bool.and_eq_true _ _ ▸ hj).1) l.adaptations a
  unfold view adaptationsBy
  simp only [hpart]
  split
  · rw [Table.mapValues_put fun _ _ => rfl]
  · rfl

/-- A write under a key is seen by the user that the key is, and by no one else. -/
theorem lookup?_put_user {ν : Type} (t : Table Scalar ν) (k : Scalar) (v : ν) :
    (t.put k v).lookup? (.text u) = if isUser u k then some v else t.lookup? (.text u) := by
  have hself : ∀ j, Key.same j (Scalar.text u) = true → isUser u j = true := fun j hj =>
    (isUser_congr hj).trans isUser_self
  by_cases hk : k = .text u
  · rw [hk, Table.lookup?_put_self (Key.sharp_text u), if_pos isUser_self]
  · have hother : isUser u k = false := decide_eq_false hk
    rw [← Table.lookup?_filter hself, Table.filter_put fun j hj => isUser_congr hj, hother,
      if_neg Bool.false_ne_true, if_neg Bool.false_ne_true, Table.lookup?_filter hself]

theorem view_storeBehavior (key : Scalar) (b : Behavior) :
    view u { l with behaviors := l.behaviors.alter key [] (Table.put · b.action b) } =
      { view u l with
        behaviors := if isUser u key then (view u l).behaviors.put b.action b.undated
          else (view u l).behaviors } := by
  unfold view behaviorsBy Table.alter
  simp only [lookup?_put_user]
  split
  · rename_i hkey
    rw [of_decide_eq_true hkey, Option.getD_some, Table.mapValues_put fun _ _ => rfl]
  · rfl

theorem view_putPreferences (key : Scalar) (es : Entries) :
    view u { l with preferences := l.preferences.put key es } = { view u l with
      preferences := if isUser u key then some es.undated else (view u l).preferences } := by
  unfold view
  simp only [lookup?_put_user]
  split <;> rfl

/-! ## Adaptations -/

theorem adaptation?_view (domain : Value) :
    (l.adaptation? (.text u) domain).map (·.map Adaptation.undated) =
      (adaptationKey (.text u) domain).map fun key => (view u l).adaptations.lookup? key := by
  unfold adaptation? adaptationKey
  cases domain with
  | list _ | map _ => rfl
  | scalar d =>
    show Except.ok ((l.adaptations.lookup? (.text u, d)).map Adaptation.undated) =
      Except.ok ((view u l).adaptations.lookup? (.text u, d))
    have hpart : (adaptationsBy u l.adaptations).lookup? (.text u, d) =
        l.adaptations.lookup? (.text u, d) := by
      refine Table.lookup?_filter (P := fun k : Scalar × Scalar => isUser u k.1) (fun j hj => ?_) _
      have hfirst : Key.same j.1 (Scalar.text u) = true := (Bool.and_eq_true _ _ ▸ hj).1
      rw [isUser_congr hfirst, isUser_self]
    rw [← hpart]
    exact congrArg Except.ok
      (Table.lookup?_mapValues (f := fun _ => Adaptation.undated) (fun _ _ => rfl) _).symm

theorem lookup?_adaptations_view {domain : Value} {key : Scalar × Scalar}
    (hkey : adaptationKey (.text u) domain = .ok key) :
    (l.adaptations.lookup? key).map Adaptation.undated = (view u l).adaptations.lookup? key := by
  have h := adaptation?_view (u := u) (l := l) domain
  unfold adaptation? at h
  rw [hkey] at h
  exact Except.ok.inj h

/-! ## Recommendations -/

/-- The user of a record is a text exactly if the record is of the user with this name. -/
theorem userId_equals {r : LearningRecord} {v : Value} (h : r.userId = .ok v) :
    v.equals (.text u) = decide (r.user? = some u) := by
  obtain ⟨found, hfound, h⟩ := Except.bind_eq_ok.1 h
  cases h
  cases hcontext : r.context with
  | raw w =>
    rw [hcontext, Slot.get?] at hfound
    rw [LearningRecord.user?_raw hcontext]
    split at hfound
    · cases hfound
      rfl
    · cases hfound
  | known c =>
    rw [hcontext] at hfound
    cases hfound
    rw [LearningRecord.user?_known hcontext, Option.map_some, Option.getD_some]
    cases c.userId with
    | list _ | map _ => rfl
    | scalar k =>
      cases k with
      | text s =>
        show (s == u) = decide (some s = some u)
        rw [Bool.eq_iff_iff, beq_iff_eq, decide_eq_true_iff, Option.some.injEq]
      | _ => rfl

/-- Where it can be told whose each record is, those of a user can be picked out. -/
theorem recordsOf_eq (h : l.IsReadable) :
    l.recordsOf (.text u) = .ok (recordsBy u l.history) := by
  refine Except.filterE_of_forall fun r hr => ?_
  obtain ⟨v, hv⟩ := h r hr
  rw [hv, Except.ok_bind, userId_equals hv]
  rfl

theorem firstExperience_undated (rs : List LearningRecord) :
    firstExperience (rs.map LearningRecord.undated) = firstExperience rs := by
  induction rs with
  | nil => rfl
  | cons r rest ih =>
    rw [List.map_cons, firstExperience, firstExperience, ih]
    rfl

theorem summarize_undated (rs : List LearningRecord) :
    summarize (rs.map LearningRecord.undated) = summarize rs := by
  have hrated : ((rs.map LearningRecord.undated).filter fun r => !r.feedback.isAbsent) =
      (rs.filter fun r => !r.feedback.isAbsent).map LearningRecord.undated := List.filter_map ..
  unfold summarize
  simp only [hrated, Except.filterE_map, Except.map_bind, List.mapM_map, ← List.map_reverse,
    firstExperience_undated, List.length_map, List.isEmpty_map]
  rfl

theorem recommendations_view (h : l.IsReadable) :
    l.recommendations (.text u) = (do
      let records := (view u l).records
      if (Quantity.int records.length).less (← (view u l).config.minHistory.quantity) then
        return ([], 0.5)
      summarize records) := by
  unfold recommendations view
  simp only [recordsOf_eq h, Except.ok_bind, List.length_map, summarize_undated]

/-! ## Weights -/

theorem orElse_name (hu : u ≠ "") (v : Value) : (Value.text u).orElse v = .text u := by
  unfold Value.orElse
  rw [if_neg]
  show ¬ (u == "") = true
  rwa [beq_iff_eq]

/-- The weight of a user follows from the adaptation without its id and time. -/
theorem weight_view (hu : u ≠ "") (domain : Value) :
    l.weight (.text u) domain = do
      match ← (l.adaptation? (.text u) domain).map (·.map Adaptation.undated) with
      | some a => return 0.5 + a.effectiveness
      | none => return 1 := by
  unfold weight
  rw [orElse_name hu, Except.map_bind]
  cases l.adaptation? (.text u) domain with
  | error f => rfl
  | ok a => cases a <;> rfl

/-! ## Behaviours and predictions -/

theorem behaviors_view :
    (view u l).behaviors.values = (behaviorsBy u l.behaviors).values.map Behavior.undated := by
  show ((behaviorsBy u l.behaviors).map fun e => (e.1, e.2.undated)).map (·.2) = _
  unfold Table.values
  rw [List.map_map, List.map_map]
  rfl

theorem lookup?_behaviors_view (action : String) :
    ((behaviorsBy u l.behaviors).lookup? action).map Behavior.undated =
      (view u l).behaviors.lookup? action :=
  (Table.lookup?_mapValues (f := fun _ => Behavior.undated) (fun _ _ => rfl) _).symm

theorem behaviorsOf_view :
    (l.behaviorsOf (.text u)).map (·.map Behavior.undated) = .ok (view u l).behaviors.values := by
  rw [behaviors_view]
  rfl

theorem predict_view (context : Value) :
    l.predict (.text u) context = do
      let behaviors := (view u l).behaviors.values
      let queried ← readQueried behaviors context
      let found ← predictions (view u l).config.predictionThreshold behaviors queried
      return takeUpTo (← (view u l).config.maxPredictions.limit?) found := by
  simp only [behaviors_view, readQueried, predictions, List.isEmpty_map, List.mapM_map]
  rfl

/-! ## Preferences -/

theorem preferences_view :
    Entries.undated ((l.preferences.lookup? (.text u)).getD []) =
      (view u l).preferences.getD [] := by
  unfold view
  cases l.preferences.lookup? (.text u) <;> rfl

theorem preferences?_view :
    (l.preferences? (.text u)).map (·.map Entries.undated) = .ok (view u l).preferences := rfl

end Learner

end KnowledgeGraph
