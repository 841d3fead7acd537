import KnowledgeGraph.Engine
import KnowledgeGraph.Proofs.Learning.Steps
import KnowledgeGraph.Proofs.Learning.History
import KnowledgeGraph.Proofs.Store.Fresh

/-!
# Traces of records

Each record that the engine learns leaves its atoms at the end of the store (`learning_eq_ok`), one
of each kind that is due (`traceAtoms_tells`). So as long as atoms are only added and the types of
the traces are left to the engine, the traces in the store tell the history of the learner, one by
one and in order (`after_traced`). All calls that learn nothing leave the store as it is.
-/

namespace KnowledgeGraph

open Attempt

namespace Engine

variable {e e' : Engine} {r : LearningRecord}

/-! ## Kinds of traces -/

/-- A kind of atoms that records leave: their type, the records that leave one, and the fields of
the record that are in its metadata, each with its name there. -/
structure TraceKind where
  type : AtomType
  leaves : LearningRecord → Bool
  fields : List (String × String)

namespace TraceKind

/-- Every record leaves an atom. -/
def record : TraceKind where
  type := .learningRecord
  leaves _ := true
  fields := [("learningType", "type"), ("timestamp", "timestamp"), ("sessionId", "sessionId"),
    ("feedback", "feedback"), ("context", "context")]

/-- Helpful feedback leaves one more. -/
def success : TraceKind where
  type := .successPattern
  leaves r := r.isHelpful
  fields := [("reasoningType", "type"), ("context", "context"), ("feedback", "feedback")]

/-- So does feedback on a personalization. -/
def personalization : TraceKind where
  type := .personalizationNode
  leaves r := r.learningType == .personalization && !r.feedback.isAbsent
  fields := [("userPreferences", "input"), ("feedback", "feedback"), ("timestamp", "timestamp")]

def all : List TraceKind := [record, success, personalization]

/-- The atom tells of the record: it has the type of the kind, and its metadata are fields of the
record as it is written. -/
def Tells (k : TraceKind) (r : LearningRecord) (a : Atom) : Prop :=
  ∃ es, r.toRecord = .ok (.map es) ∧ a.type = .text k.type.label ∧
    a.metadata = Entries.ofFields (k.fields.map fun f => (f.1, Entries.field es f.2))

/-- The atoms of the type in the store tell of the records that leave one, one by one and in
order. -/
def Mirrors (k : TraceKind) (e : Engine) : Prop :=
  List.Forall₂ k.Tells (e.learner.history.filter k.leaves) (e.store.all.filter (·.hasType k.type))

end TraceKind

/-! ## The atoms of a record -/

def unlabeled (a : Atom) : Atom := { a with id := .null }

theorem unlabeled_eq_self {a : Atom} (ha : a.id = .null) : unlabeled a = a := by
  cases a
  cases ha
  rfl

/-- The atoms that helpful feedback leaves. -/
def successAtoms (r : LearningRecord) (time : String) (given : Option Feedback)
    (feedback context : Value) : List Atom :=
  ((given.filter (·.helpful)).map fun f => successAtom r time f feedback context).toList

/-- The atoms that feedback on a personalization leaves. -/
def personalizationAtoms (r : LearningRecord) (time : String) (given : Option Feedback)
    (feedback : Value) : List Atom :=
  if given.isSome && r.learningType == .personalization then [personalizationAtom r time feedback]
  else []

theorem traceAtoms_eq_ok {atoms : List Atom} (h : traceAtoms r = .ok atoms) :
    ∃ feedback context time given, Atom.writeSlot Feedback.toValue r.feedback = .ok feedback ∧
      Atom.writeSlot LearningContext.toValue r.context = .ok context ∧
      r.feedback.get? = .ok given ∧
      atoms = [recordAtom r time feedback context] ++ successAtoms r time given feedback context ++
        personalizationAtoms r time given feedback := by
  unfold traceAtoms traceParts at h
  obtain ⟨⟨feedback, context⟩, hparts, h⟩ := Except.bind_eq_ok.1 h
  obtain ⟨time, -, h⟩ := Except.bind_eq_ok.1 h
  obtain ⟨given, hgiven, h⟩ := Except.bind_eq_ok.1 h
  obtain ⟨feedback, hfeedback, hparts⟩ := Except.bind_eq_ok.1 hparts
  obtain ⟨context, hcontext, hparts⟩ := Except.bind_eq_ok.1 hparts
  cases hparts
  cases h
  exact ⟨feedback, context, time, given, hfeedback, hcontext, hgiven, rfl⟩

theorem filter_hasType_self {t : AtomType} {atoms : List Atom}
    (h : ∀ a ∈ atoms, a.type = .text t.label) : atoms.filter (·.hasType t) = atoms := by
  refine List.filter_eq_self.2 fun a ha => ?_
  rw [Atom.hasType, h a ha]
  exact beq_self_eq_true t.label

theorem filter_hasType_of_ne {t t' : AtomType} {atoms : List Atom}
    (h : ∀ a ∈ atoms, a.type = .text t'.label) (hne : t'.label ≠ t.label) :
    atoms.filter (·.hasType t) = [] := by
  refine List.filter_eq_nil_iff.2 fun a ha => ?_
  rw [Atom.hasType, h a ha]
  exact fun hsame => hne (beq_iff_eq.1 hsame)

theorem successAtoms_type {time : String} {given : Option Feedback} {feedback context : Value} :
    ∀ a ∈ successAtoms r time given feedback context, a.type = .text TraceKind.success.type.label := by
  intro a ha
  obtain ⟨f, -, rfl⟩ := Option.map_eq_some_iff.1 (Option.mem_toList.1 ha)
  rfl

theorem personalizationAtoms_type {time : String} {given : Option Feedback} {feedback : Value} :
    ∀ a ∈ personalizationAtoms r time given feedback,
      a.type = .text TraceKind.personalization.type.label := by
  intro a ha
  unfold personalizationAtoms at ha
  split at ha
  · rw [List.mem_singleton.1 ha]
    rfl
  · cases ha

theorem given_spec {given : Option Feedback} (h : r.feedback.get? = .ok given) :
    r.isHelpful = given.any (·.helpful) ∧ (!r.feedback.isAbsent) = given.isSome := by
  unfold LearningRecord.isHelpful
  cases hf : r.feedback with
  | known f =>
    rw [hf] at h
    cases h
    exact ⟨rfl, rfl⟩
  | raw v =>
    rw [hf, Slot.get?] at h
    split at h
    · rename_i habsent
      cases h
      rw [Slot.isAbsent, habsent]
      exact ⟨rfl, rfl⟩
    · cases h

section

variable {feedback context : Value} {time : String} {given : Option Feedback}

theorem successAtoms_tells (hgiven : r.feedback.get? = .ok given)
    (htells : ∀ f, TraceKind.success.Tells r (successAtom r time f feedback context)) :
    List.Forall₂ TraceKind.success.Tells ([r].filter TraceKind.success.leaves)
      (successAtoms r time given feedback context) := by
  have hleaves : TraceKind.success.leaves r = given.any (·.helpful) := (given_spec hgiven).1
  rw [List.filter_singleton, hleaves]
  unfold successAtoms
  cases given with
  | none => exact .nil
  | some f =>
    rw [Option.filter_some, Option.any_some]
    cases f.helpful with
    | false => exact .nil
    | true => exact .cons (htells f) .nil

theorem personalizationAtoms_tells (hgiven : r.feedback.get? = .ok given)
    (htells : TraceKind.personalization.Tells r (personalizationAtom r time feedback)) :
    List.Forall₂ TraceKind.personalization.Tells ([r].filter TraceKind.personalization.leaves)
      (personalizationAtoms r time given feedback) := by
  have hleaves : TraceKind.personalization.leaves r =
      (given.isSome && r.learningType == .personalization) := by
    rw [← (given_spec hgiven).2, Bool.and_comm]
    rfl
  rw [List.filter_singleton, hleaves]
  unfold personalizationAtoms
  cases given.isSome && r.learningType == .personalization with
  | false => exact .nil
  | true => exact .cons htells .nil

end

/-- The atoms of a record tell of it, one of each kind that is due. -/
theorem traceAtoms_tells {atoms : List Atom} (h : traceAtoms r = .ok atoms) {k : TraceKind}
    (hk : k ∈ TraceKind.all) :
    List.Forall₂ k.Tells ([r].filter k.leaves) (atoms.filter (·.hasType k.type)) := by
  obtain ⟨feedback, context, time, given, hfeedback, hcontext, hgiven, rfl⟩ := traceAtoms_eq_ok h
  have hrecord : r.toRecord = .ok (.record [
      ("type", .text r.type),
      ("input", r.input),
      ("expectedOutput", r.expectedOutput),
      ("feedback", feedback),
      ("context", context),
      ("timestamp", r.timestamp),
      ("priority", (r.priority.map fun p => Value.text p.label).getD .null),
      ("sessionId", r.sessionId)]) := by
    unfold LearningRecord.toRecord
    rw [hfeedback, hcontext]
    rfl
  have htype : ∀ a ∈ [recordAtom r time feedback context],
      a.type = .text TraceKind.record.type.label := by
    intro a ha
    rw [List.mem_singleton.1 ha]
    rfl
  rw [List.filter_append, List.filter_append]
  unfold TraceKind.all at hk
  simp only [List.mem_cons, List.not_mem_nil, or_false] at hk
  obtain rfl | rfl | rfl := hk
  · rw [filter_hasType_self htype, filter_hasType_of_ne successAtoms_type (by decide),
      filter_hasType_of_ne personalizationAtoms_type (by decide)]
    exact .cons ⟨_, hrecord, rfl, rfl⟩ .nil
  · rw [filter_hasType_of_ne htype (by decide), filter_hasType_self successAtoms_type,
      filter_hasType_of_ne personalizationAtoms_type (by decide), List.append_nil]
    exact successAtoms_tells hgiven fun f => ⟨_, hrecord, rfl, rfl⟩
  · rw [filter_hasType_of_ne htype (by decide), filter_hasType_of_ne successAtoms_type (by decide),
      filter_hasType_self personalizationAtoms_type]
    exact personalizationAtoms_tells hgiven ⟨_, hrecord, rfl, rfl⟩

/-! ## Parts of the engine -/

theorem onStore_runOn {α : Type} (x : Attempt Store α) (e : Engine) :
    (onStore x).runOn e = ((x.runOn e.store).1, { e with store := (x.runOn e.store).2 }) := rfl

theorem onLearner_runOn {α : Type} (x : Attempt Learner α) (e : Engine) :
    (onLearner x).runOn e = ((x.runOn e.learner).1, { e with learner := (x.runOn e.learner).2 }) :=
  rfl

/-! ## Leaving a trace -/

/-- An atom without an id that is added comes last in the store, and the learner is left alone. -/
theorem addOne_eq_ok {a : Atom} (ha : a.id = .null)
    (h : (discard (onStore (Store.add a))).runOn e = (.ok (), e')) :
    e'.learner = e.learner ∧ ∃ b, unlabeled b = a ∧ e'.store.all = e.store.all ++ [b] := by
  rw [discard_eq] at h
  obtain ⟨_, _, hadd, h⟩ := bind_eq_ok.1 h
  cases h
  rw [onStore_runOn, Store.add_eq (by rw [ha]; rfl)] at hadd
  split at hadd
  · cases hadd
    exact ⟨rfl, (Store.withGeneratedId a _).2, unlabeled_eq_self ha, List.map_append⟩
  · cases hadd

theorem addAll_eq_ok {atoms : List Atom} (hatoms : ∀ a ∈ atoms, a.id = .null)
    (h : (atoms.forM fun a => discard (onStore (Store.add a))).runOn e = (.ok (), e')) :
    e'.learner = e.learner ∧
      ∃ added, added.map unlabeled = atoms ∧ e'.store.all = e.store.all ++ added := by
  induction atoms generalizing e with
  | nil =>
    cases h
    exact ⟨rfl, [], rfl, (List.append_nil _).symm⟩
  | cons a rest ih =>
    obtain ⟨_, _, hone, hrest⟩ := bind_eq_ok.1 h
    obtain ⟨hlearner, b, hb, hall⟩ := addOne_eq_ok (hatoms a List.mem_cons_self) hone
    obtain ⟨hlearner', added, hadded, hall'⟩ :=
      ih (fun c hc => hatoms c (List.mem_cons_of_mem a hc)) hrest
    refine ⟨hlearner'.trans hlearner, b :: added, ?_, ?_⟩
    · rw [List.map_cons, hb, hadded]
    · rw [hall', hall, List.append_assoc, List.singleton_append]

theorem traceAtoms_id {atoms : List Atom} (h : traceAtoms r = .ok atoms) :
    ∀ a ∈ atoms, a.id = .null := by
  obtain ⟨feedback, context, time, given, -, -, -, rfl⟩ := traceAtoms_eq_ok h
  unfold successAtoms personalizationAtoms
  intro a ha
  simp only [List.mem_append, List.mem_singleton, Option.mem_toList, Option.map_eq_some_iff] at ha
  obtain (rfl | ⟨f, -, rfl⟩) | ha := ha
  · rfl
  · rfl
  · split at ha
    · rw [List.mem_singleton.1 ha]
      rfl
    · cases ha

/-- Learning with a trace adds one record to the history and the atoms of the record to the
store. -/
theorem learning_eq_ok {x : Attempt Learner LearningRecord} (hx : Learner.Appends x)
    (h : (learning x).runOn e = (.ok r, e')) :
    e'.learner.history = e.learner.history ++ [r] ∧
      ∃ added, traceAtoms r = .ok (added.map unlabeled) ∧ e'.store.all = e.store.all ++ added := by
  obtain ⟨r', e₁, hlearn, h⟩ := bind_eq_ok.1 h
  obtain ⟨_, e₂, htrace, h⟩ := bind_eq_ok.1 h
  cases h
  obtain ⟨atoms, hatoms, htrace⟩ := lift_bind_eq_ok.1 htrace
  obtain ⟨hlearner, added, rfl, hall⟩ := addAll_eq_ok (traceAtoms_id hatoms) htrace
  rcases hrun : x.runOn e.learner with ⟨outcome, l'⟩
  rw [onLearner_runOn, hrun] at hlearn
  cases hlearn
  refine ⟨?_, added, hatoms, hall⟩
  rw [hlearner]
  exact hx _ _ _ hrun

/-! ## Calls that learn -/

/-- What a call learns, if it learns something. -/
def Command.recording? : Command → Option (Attempt Learner LearningRecord)
  | .learner (.learn record) => some (Learner.learnRecord record)
  | .learner (.feedback feedback context) => some (Learner.learnFeedback feedback context)
  | .learner (.behavior user action context) =>
    some (do Learner.learn (← Learner.behaviorRecord user action context))
  | _ => none

variable {c : Command} {x : Attempt Learner LearningRecord} {k : TraceKind}

theorem Command.appends (hx : c.recording? = some x) : Learner.Appends x := by
  cases c with
  | learner command =>
    cases command with
    | learn record =>
      cases hx
      exact Learner.lift_learn_appends _
    | feedback feedback context =>
      cases hx
      exact Learner.learnFeedback_appends feedback context
    | behavior user action context =>
      cases hx
      exact Learner.lift_learn_appends _
    | _ => cases hx
  | _ => cases hx

/-- A call that learns leaves the state that the learning with its trace leaves. -/
theorem perform_recording (hx : c.recording? = some x) (e : Engine) :
    ((perform c).runOn e).2 = ((learning x).runOn e).2 := by
  cases c with
  | learner command =>
    cases command with
    | learn record =>
      cases hx
      exact runOn_bind_snd (fun _ _ => rfl) e
    | feedback feedback context =>
      cases hx
      exact runOn_bind_snd (fun _ _ => rfl) e
    | behavior user action context =>
      cases hx
      refine (runOn_bind_snd (fun _ _ => rfl) e).trans ?_
      unfold learnBehavior
      rw [runOn_bind_snd fun _ _ => rfl, discard_eq, runOn_bind_snd fun _ _ => rfl]
    | _ => cases hx
  | _ => cases hx

/-- A call that learns and returns keeps the traces in step with the history. -/
theorem TraceKind.Mirrors.learned (h : k.Mirrors e) (hk : k ∈ TraceKind.all)
    (hx : c.recording? = some x) (hreturns : Except.Returns ((learning x).runOn e).1) :
    k.Mirrors ((perform c).runOn e).2 := by
  obtain ⟨r, hr⟩ := hreturns
  rcases hrun : (learning x).runOn e with ⟨outcome, e'⟩
  rw [hrun] at hr
  cases hr
  obtain ⟨hhistory, added, hatoms, hall⟩ := learning_eq_ok (Command.appends hx) hrun
  rw [perform_recording hx, hrun]
  unfold TraceKind.Mirrors
  rw [hhistory, hall, List.filter_append, List.filter_append]
  refine List.rel_append h ?_
  have htells := traceAtoms_tells hatoms hk
  -- The id of an atom makes no difference to its type and to what it tells.
  rw [List.filter_map, List.forall₂_map_right_iff] at htells
  exact htells

/-! ## Calls that learn nothing -/

/-- A call that is for the learner alone, and learns nothing, keeps the history. -/
theorem learner_keepsHistory {command : Learner.Command}
    (hx : (Command.learner command).recording? = none) (l : Learner) :
    ((Learner.perform command).runOn l).2.history = l.history := by
  have hlearns : ∀ r, ¬ command.Learns r := by
    intro r hr
    cases command with
    | learn _ | feedback _ _ | behavior _ _ _ => cases hx
    | _ => exact hr
  exact congrArg Learner.Core.history (Learner.perform_keepsCore hlearns l.core l rfl)

/-- A call that is for the learner, and learns nothing, is carried out by the learner alone. -/
theorem perform_learner {command : Learner.Command}
    (hx : (Command.learner command).recording? = none) :
    perform (.learner command) = onLearner (Learner.perform command) := by
  cases command with
  | learn _ | feedback _ _ | behavior _ _ _ => cases hx
  | _ => rfl

theorem perform_recognize (request : Value) (e : Engine) :
    ((perform (.recognize request)).runOn e).2 = e := by
  show (Attempt.runOn (get >>= _) e).2 = e
  rw [runOn_bind, runOn_get]
  exact runOn_bind_snd (fun _ _ => rfl) e

/-- A call that learns nothing and is not for the store leaves the store and the history as they
are, also when it stops at a fault. -/
theorem perform_keepsStore (hx : c.recording? = none) (hstore : ∀ command, c ≠ .store command)
    (e : Engine) :
    ((perform c).runOn e).2.store = e.store ∧
      ((perform c).runOn e).2.learner.history = e.learner.history := by
  cases c with
  | store command => exact absurd rfl (hstore command)
  | learner command =>
    rw [perform_learner hx, onLearner_runOn]
    exact ⟨rfl, learner_keepsHistory hx e.learner⟩
  | recognize request =>
    rw [perform_recognize]
    exact ⟨rfl, rfl⟩
  | reason question => exact ⟨rfl, rfl⟩

/-! ## Calls of the store -/

/-- The atom is of a type that only traces have. -/
def IsTrace (a : Atom) : Prop := ∃ k ∈ TraceKind.all, a.hasType k.type = true

/-- A call that only looks at the store leaves it as it is, also when it stops at a fault. -/
theorem perform_looks {command : Store.Command} (h : command.Looks) (s : Store) :
    ((Store.perform command).runOn s).2 = s := by
  refine Store.perform_keeps (I := (· = s)) ?_ ?_ ?_ ?_ ?_ s rfl
  · rintro record rfl
    exact h.elim
  · rintro id rfl
    exact h.elim
  · rintro id updates rfl
    exact h.elim
  · rintro (rfl | rfl) <;> exact h.elim
  · rintro data (rfl | rfl) <;> exact h.elim

/-- A call of the store that at most adds an atom: one that is no trace, and has no id or an id that
is not taken. Any other call only looks at the store, or finds nothing to change. -/
def OnlyAdds (s : Store) : Store.Command → Prop
  | .add record => ∀ a, Atom.ofRecord record = .ok a → ¬ IsTrace a ∧
    ∀ key, a.id = .scalar key → a.id.isAbsent = false → s.atoms.has key = false
  | command => command.Looks ∨ ((Store.perform command).runOn s).2.all = s.all

/-- An atom whose id is absent or not taken comes last, unless no id is left for it. -/
theorem add_all {s : Store} {a : Atom}
    (ha : ∀ key, a.id = .scalar key → a.id.isAbsent = false → s.atoms.has key = false) :
    ((Store.add a).runOn s).2.all = s.all ∨
      ∃ b, b.type = a.type ∧ ((Store.add a).runOn s).2.all = s.all ++ [b] := by
  cases habsent : a.id.isAbsent with
  | true =>
    rw [Store.add_eq habsent]
    split
    · exact .inr ⟨(Store.withGeneratedId a _).2, rfl, List.map_append⟩
    · exact .inl rfl
  | false =>
    rw [Store.add_of_id habsent]
    cases hid : a.id with
    | scalar key =>
      refine .inr ⟨a, rfl, ?_⟩
      have hfree := ha key hid habsent
      show (if _ then _ else _ : Except Fault Value × Store).2.all = _
      rw [hfree]
      show (s.atoms.put key a).values = _
      rw [Table.put_of_has_eq_false hfree]
      exact List.map_append
    | list _ | map _ => exact .inl rfl

theorem perform_add_unreadable {s : Store} {record : Value} {f : Fault}
    (h : Atom.ofRecord record = .error f) : ((Store.perform (.add record)).runOn s).2 = s := by
  show ((Store.addRecord record).runOn s).2 = s
  unfold Store.addRecord
  split
  · rw [runOn_bind, runOn_lift, h]
  · rfl

/-- What such a call adds comes last in the store, and is no trace. -/
theorem OnlyAdds.perform {s : Store} {command : Store.Command} (h : OnlyAdds s command) :
    ∃ added, ((Store.perform command).runOn s).2.all = s.all ++ added ∧
      ∀ a ∈ added, ¬ IsTrace a := by
  have hnone (hsame : ((Store.perform command).runOn s).2.all = s.all) :
      ∃ added, ((Store.perform command).runOn s).2.all = s.all ++ added ∧
        ∀ a ∈ added, ¬ IsTrace a := ⟨[], by rw [hsame, List.append_nil], nofun⟩
  cases command with
  | add record =>
    cases hrecord : Atom.ofRecord record with
    | error f => exact hnone (congrArg Store.all (perform_add_unreadable hrecord))
    | ok a =>
      obtain ⟨htrace, hfree⟩ := h a hrecord
      rw [Store.perform_add hrecord] at hnone ⊢
      obtain hsame | ⟨b, htype, hadded⟩ := add_all hfree
      · exact hnone hsame
      · refine ⟨[b], hadded, ?_⟩
        rw [List.forall_mem_singleton]
        unfold IsTrace Atom.hasType at htrace ⊢
        rwa [htype]
  | _ => exact hnone (h.elim (fun hlooks => congrArg Store.all (perform_looks hlooks s)) id)

theorem TraceKind.Mirrors.added (h : k.Mirrors e) (hk : k ∈ TraceKind.all)
    {command : Store.Command} (hadds : OnlyAdds e.store command) :
    k.Mirrors ((perform (.store command)).runOn e).2 := by
  obtain ⟨added, hall, htrace⟩ := hadds.perform
  show List.Forall₂ k.Tells _ (((Store.perform command).runOn e.store).2.all.filter _)
  have hnone : added.filter (·.hasType k.type) = [] :=
    List.filter_eq_nil_iff.2 fun a ha hasType => htrace a ha ⟨k, hk, hasType⟩
  rw [hall, List.filter_append, hnone, List.append_nil]
  exact h

/-! ## Runs -/

def clocked (e : Engine) (now : Nat) : Engine := { e with learner := { e.learner with now } }

/-- The engine after a call at a time of its own. -/
def step (e : Engine) (call : Nat × Command) : Engine :=
  ((perform call.2).runOn (e.clocked call.1)).2

def after (config : EngineConfig) (calls : List (Nat × Command)) : Engine :=
  calls.foldl step (start config)

/-- What is asked of a call: if it learns something it returns, and if it is for the store it at
most adds an atom that is no trace. -/
structure Permits (e : Engine) (c : Command) : Prop where
  returns : ∀ x, c.recording? = some x → Except.Returns ((learning x).runOn e).1
  adds : ∀ command, c = .store command → OnlyAdds e.store command

/-- Each call in a row is permitted where it is made. -/
def GoesWell : Engine → List (Nat × Command) → Prop
  | _, [] => True
  | e, call :: rest => (e.clocked call.1).Permits call.2 ∧ GoesWell (e.step call) rest

/-- **Steps.** A permitted call keeps the traces in step with the history. -/
theorem TraceKind.Mirrors.step (h : k.Mirrors e) (hk : k ∈ TraceKind.all) {call : Nat × Command}
    (hcall : (e.clocked call.1).Permits call.2) : k.Mirrors (e.step call) := by
  have h : k.Mirrors (e.clocked call.1) := h
  unfold Engine.step
  cases hx : call.2.recording? with
  | some x => exact h.learned hk hx (hcall.returns x hx)
  | none =>
    by_cases hstore : ∃ command, call.2 = .store command
    · obtain ⟨command, hcommand⟩ := hstore
      rw [hcommand]
      exact h.added hk (hcall.adds command hcommand)
    · obtain ⟨hsame, hhistory⟩ := perform_keepsStore hx (not_exists.1 hstore) (e.clocked call.1)
      unfold TraceKind.Mirrors
      rw [hsame, hhistory]
      exact h

/-- **Runs.** A run of permitted calls keeps the traces in step with the history. -/
theorem TraceKind.Mirrors.run {calls : List (Nat × Command)} (h : k.Mirrors e)
    (hk : k ∈ TraceKind.all) (hcalls : e.GoesWell calls) :
    k.Mirrors (calls.foldl Engine.step e) := by
  induction calls generalizing e with
  | nil => exact h
  | cons call rest ih => exact ih (h.step hk hcalls.1) hcalls.2

/-- **Traces.** After a run in which the calls that learn return and the calls of the store at most
add atoms of other types, there is one atom of the type of learning records for each record of the
history, one of success for each record of helpful feedback, and one of personalization for each
record of a personalization with feedback; all in order, with the fields of their records. Calls that
learn nothing and are not for the store leave the store as it is. -/
theorem after_traced {config : EngineConfig} {calls : List (Nat × Command)}
    (hcalls : (start config).GoesWell calls) :
    let e := after config calls
    List.Forall₂ TraceKind.record.Tells e.learner.history
      (e.store.all.filter (·.hasType .learningRecord)) ∧
    List.Forall₂ TraceKind.success.Tells (e.learner.history.filter (·.isHelpful))
      (e.store.all.filter (·.hasType .successPattern)) ∧
    List.Forall₂ TraceKind.personalization.Tells
      (e.learner.history.filter fun r => r.learningType == .personalization && !r.feedback.isAbsent)
      (e.store.all.filter (·.hasType .personalizationNode)) ∧
    ∀ (e : Engine) (c : Command), c.recording? = none → (∀ command, c ≠ .store command) →
      ((perform c).runOn e).2.store = e.store := by
  intro e
  have hmirrors : ∀ k ∈ TraceKind.all, k.Mirrors e := fun k hk =>
    TraceKind.Mirrors.run (show k.Mirrors (start config) from .nil) hk hcalls
  refine ⟨?record, hmirrors .success (by simp [TraceKind.all]),
    hmirrors .personalization (by simp [TraceKind.all]),
    fun e c hx hstore => (perform_keepsStore hx hstore e).1⟩
  case record =>
    have hall : e.learner.history.filter TraceKind.record.leaves = e.learner.history :=
      List.filter_eq_self.2 fun _ _ => rfl
    have hrecord := hmirrors .record (by simp [TraceKind.all])
    unfold TraceKind.Mirrors at hrecord
    rwa [hall] at hrecord

/-- Two records leave two atoms, and the one with helpful feedback one more. -/
theorem after_traced_twice :
    let calls : List (Nat × Command) := [
      (1, .learner (.feedback (.record [("rating", .float 5), ("helpful", .bool true)]) (.map []))),
      (2, .store (.add (.record [("type", .text "ConceptNode")]))),
      (3, .store .all),
      (4, .learner (.behavior (.text "u") (.text "run") .null))]
    (start {}).GoesWell calls ∧
      ((after {} calls).store.all.filter (·.hasType .learningRecord)).length = 2 ∧
      ((after {} calls).store.all.filter (·.hasType .successPattern)).length = 1 := by
  intro calls
  have hcalls : (start {}).GoesWell calls := by
    refine ⟨⟨?_, nofun⟩, ⟨nofun, ?_⟩, ⟨nofun, ?_⟩, ⟨?_, nofun⟩, trivial⟩
    · rintro x ⟨⟩
      exact Except.returns_of_isOk (by decide +kernel)
    · rintro command ⟨⟩ a ⟨⟩
      refine ⟨?_, by rintro key ⟨⟩ ⟨⟩⟩
      rintro ⟨k, hk, htype⟩
      have hnone : ∀ k ∈ TraceKind.all, (Value.text "ConceptNode").isText k.type.label = false := by
        decide
      exact absurd htype (Bool.eq_false_iff.1 (hnone k hk))
    · rintro command ⟨⟩
      exact .inl trivial
    · rintro x ⟨⟩
      exact Except.returns_of_isOk (by decide +kernel)
  obtain ⟨hrecord, hsuccess, -⟩ := after_traced hcalls
  refine ⟨hcalls, hrecord.length_eq.symm.trans ?_, hsuccess.length_eq.symm.trans ?_⟩
  · decide +kernel
  · decide +kernel

end Engine

end KnowledgeGraph
