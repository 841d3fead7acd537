import KnowledgeGraph.Proofs.Engine.Steering

/-!
# Ways to ask for hybrid reasoning

Hybrid reasoning is asked for by its name, by a mixed type, or by no type. Questions by name and by no
type are mentioned by the one name, and their answers are the same. A mixed question is given the
same hybrid answer, but is mentioned as mixed: its confidence is weighed by what was learned about
mixed reasoning, and a failure says so (`reason_hybrid`).
-/

namespace KnowledgeGraph

/-! ## Questions -/

/-- The types of questions that are mentioned as hybrid. -/
inductive IsHybridType : Value → Prop
  | missing : IsHybridType .null
  | empty : IsHybridType (.text "")
  | named : IsHybridType (.text ReasoningType.hybrid.label)

/-- The records ask the same, perhaps for different types of reasoning. -/
structure AskAlike (es es' : Entries) : Prop where
  atoms : Entries.field es' "atoms" = Entries.field es "atoms"
  context : Entries.field es' "context" = Entries.field es "context"
  parameters : Entries.field es' "parameters" = Entries.field es "parameters"

variable {es es' : Entries} {q : Question}

theorem IsHybridType.label {v : Value} (h : IsHybridType v) (q : Question) :
    { q with type := v }.label = ReasoningType.hybrid.label := by
  cases h <;> rfl

theorem IsHybridType.reasoningType {v : Value} (h : IsHybridType v) :
    ReasoningType.ofValue v = .hybrid := by
  cases h <;> rfl

theorem Question.label_mixed (q : Question) : { q with type := .text "mixed" }.label = "mixed" :=
  rfl

theorem AskAlike.ofRecord (h : AskAlike es es') :
    Question.ofRecord (.map es') = (Question.ofRecord (.map es)).map fun q =>
      { q with type := Entries.field es' "type" } := by
  obtain ⟨hatoms, hcontext, hparameters⟩ := h
  unfold Entries.field at hatoms hcontext hparameters
  unfold Question.ofRecord
  dsimp only
  rw [hatoms, hcontext, hparameters]
  cases Question.readAtoms ((Entries.get? es "atoms").getD .null) with
  | error f => rfl
  | ok atoms =>
    cases ((Entries.get? es "context").getD .null).toMapOrEmpty with
    | error f => rfl
    | ok context =>
      cases ((Entries.get? es "parameters").getD .null).toMapOrEmpty with
      | error f => rfl
      | ok parameters => rfl

theorem Question.ofRecord_type (h : Question.ofRecord (.map es) = .ok q) :
    q.type = Entries.field es "type" := by
  obtain ⟨atoms, -, h⟩ := Except.bind_eq_ok.1 h
  obtain ⟨context, -, h⟩ := Except.bind_eq_ok.1 h
  obtain ⟨parameters, -, h⟩ := Except.bind_eq_ok.1 h
  cases h
  rfl

def Answer.weighedBy (a : Answer) (weight : Float) : Answer :=
  { a with confidence := clampUnit (a.confidence * weight) }

namespace Engine

/-! ## Answers -/

/-- The hybrid answer to a question before its confidence is weighed. -/
def hybridAnswer (e : Engine) (q : Question) : Answer :=
  Hybrid.answer e.reasoner.strategies (e.reasoner.knowledge q) q

theorem produces_hybridAnswer (e : Engine) (h : q.reasoningType = .hybrid) :
    e.reasoner.Produces q (e.hybridAnswer q) :=
  .hybrid h

/-- The general strategies do not look at the type of a question. -/
theorem produces_retyped (e : Engine) (q : Question) {v : Value}
    (hv : ReasoningType.ofValue v = .hybrid) :
    e.reasoner.Produces { q with type := v } (e.hybridAnswer q) :=
  e.produces_hybridAnswer (q := { q with type := v }) hv

/-- What is produced is weighed for the user by the label of the question. -/
theorem reason_of_produces (e : Engine) {record : Value} {a : Answer} {user : Scalar}
    (hq : Question.ofRecord record = .ok q) (ha : e.reasoner.Produces q a)
    (huser : actingUser q.context = .scalar user) :
    e.reason record = a.weighedBy (e.learner.weightIn user (.text q.label)) := by
  have hrun := (Reasoner.run_of_produces ha).trans
    (Reasoner.weigh_ok (weighed_eq huser e a.confidence))
  unfold reason Reasoner.reason
  rw [Reasoner.read_of_known hq ha.isKnown]
  dsimp only
  rw [hrun]
  rfl

theorem reason_of_produces_nobody (e : Engine) {record : Value} {a : Answer}
    (hq : Question.ofRecord record = .ok q) (ha : e.reasoner.Produces q a)
    (hnone : ∀ user, actingUser q.context ≠ .scalar user) :
    e.reason record = Reasoner.failed .wrongKind q.label := by
  have hweight : Reasoner.weightOf e.weights q = .error .wrongKind := by
    unfold Reasoner.weightOf weights
    rw [contextUser_map, Except.ok_bind]
    unfold Learner.weight Learner.adaptation? Learner.adaptationKey
    unfold actingUser at hnone
    cases huser : ((Entries.field q.context "userId").orElse
        (Entries.field q.context "user_id")).orElse (.text Learner.anonymousUser) with
    | scalar user => exact absurd huser (hnone user)
    | list _ | map _ => rfl
  have hweighed : e.reasoner.weighed q a.confidence = .error .wrongKind := by
    rw [Reasoner.weighed_some rfl, hweight]
    rfl
  have hrun := (Reasoner.run_of_produces ha).trans (Reasoner.weigh_error hweighed)
  unfold reason Reasoner.reason
  rw [Reasoner.read_of_known hq ha.isKnown]
  dsimp only
  rw [hrun]

/-- **Asking for hybrid reasoning.** Records that ask the same, by name or by no type, get the same
answer. A mixed one gets it, too, if it cannot be read. Otherwise the two answers are the same up to
the confidence, which is weighed for hybrid reasoning in one and for mixed reasoning in the other, or
they are failures up to the name of the type where nobody can be weighed for. -/
theorem reason_hybrid (e : Engine) (h : AskAlike es es')
    (htype : IsHybridType (Entries.field es "type")) :
    (IsHybridType (Entries.field es' "type") → e.reason (.map es') = e.reason (.map es)) ∧
    (Entries.field es' "type" = .text "mixed" →
      (∀ f, Question.ofRecord (.map es) = .error f → e.reason (.map es') = e.reason (.map es)) ∧
      ∀ q, Question.ofRecord (.map es) = .ok q →
        (∀ user, actingUser q.context = .scalar user → ∃ a : Answer,
          e.reason (.map es) = a.weighedBy (e.learner.weightIn user (.text "hybrid")) ∧
          e.reason (.map es') = a.weighedBy (e.learner.weightIn user (.text "mixed"))) ∧
        ((∀ user, actingUser q.context ≠ .scalar user) →
          e.reason (.map es) = Reasoner.failed .wrongKind "hybrid" ∧
          e.reason (.map es') = Reasoner.failed .wrongKind "mixed")) := by
  have hread := h.ofRecord
  have hunread (f : Fault) (hf : Question.ofRecord (.map es) = .error f) :
      e.reason (.map es') = e.reason (.map es) := by
    rw [hf] at hread
    unfold reason Reasoner.reason
    rw [Reasoner.read_error hf, Reasoner.read_error hread]
  have hread' (q : Question) (hq : Question.ofRecord (.map es) = .ok q) :
      Question.ofRecord (.map es') = .ok { q with type := Entries.field es' "type" } := by
    rw [hread, hq]
    rfl
  have hquestion (q : Question) (hq : Question.ofRecord (.map es) = .ok q) :
      q.reasoningType = .hybrid ∧ q.label = "hybrid" := by
    obtain ⟨type, atoms, context, parameters⟩ := q
    cases Question.ofRecord_type hq
    exact ⟨htype.reasoningType, htype.label ⟨.null, atoms, context, parameters⟩⟩
  refine ⟨fun htype' => ?_, fun htype' => ⟨hunread, fun q hq => ?_⟩⟩
  · cases hq : Question.ofRecord (.map es) with
    | error f => exact hunread f hq
    | ok q =>
      obtain ⟨hhybrid, hlabel⟩ := hquestion q hq
      have hlabel' := (htype'.label q).trans hlabel.symm
      by_cases huser : ∃ user, actingUser q.context = .scalar user
      · obtain ⟨user, huser⟩ := huser
        rw [e.reason_of_produces hq (e.produces_hybridAnswer hhybrid) huser,
          e.reason_of_produces (hread' q hq) (e.produces_retyped q htype'.reasoningType) huser,
          hlabel']
      · have hnone := not_exists.1 huser
        rw [e.reason_of_produces_nobody hq (e.produces_hybridAnswer hhybrid) hnone,
          e.reason_of_produces_nobody (hread' q hq) (e.produces_retyped q htype'.reasoningType) hnone,
          hlabel']
  · obtain ⟨hhybrid, hlabel⟩ := hquestion q hq
    have hq' := hread' q hq
    rw [htype'] at hq'
    refine ⟨fun user huser => ⟨e.hybridAnswer q, ?_, ?_⟩, fun hnone => ⟨?_, ?_⟩⟩
    · rw [e.reason_of_produces hq (e.produces_hybridAnswer hhybrid) huser, hlabel]
    · rw [e.reason_of_produces hq' (e.produces_retyped q rfl) huser, Question.label_mixed]
    · rw [e.reason_of_produces_nobody hq (e.produces_hybridAnswer hhybrid) hnone, hlabel]
    · rw [e.reason_of_produces_nobody hq' (e.produces_retyped q rfl) hnone, Question.label_mixed]

/-- After feedback on hybrid reasoning a mixed question gets another confidence. -/
theorem reason_hybrid_mixed :
    let e := after {} [(0, .learner (.feedback
      (.record [("rating", .float 5), ("helpful", .bool true)]) (feedbackContext "u" .hybrid)))]
    let node (name : String) : Value :=
      .record [("type", .text "ConceptNode"), ("name", .text name),
        ("truthValue", .record [("strength", .float 1), ("confidence", .float 1)])]
    let fields (type : String) : Entries := Entries.ofFields [("type", .text type),
      ("atoms", .list [.record [("type", .text "ImplicationLink"),
        ("outgoing", .list [node "rain", node "wet"])]]),
      ("context", .record [("userId", .text "u")])]
    (∃ a : Answer, e.reason (.map (fields "hybrid")) =
        a.weighedBy (e.learner.weightIn (.text "u") (.text "hybrid")) ∧
      e.reason (.map (fields "mixed")) =
        a.weighedBy (e.learner.weightIn (.text "u") (.text "mixed"))) ∧
      e.reason (.map (fields "mixed")) ≠ e.reason (.map (fields "hybrid")) := by
  intro e node fields
  have halike : AskAlike (fields "hybrid") (fields "mixed") := ⟨rfl, rfl, rfl⟩
  obtain ⟨-, hmixed⟩ := reason_hybrid e halike .named
  refine ⟨?_, ?_⟩
  · exact ((hmixed rfl).2 _ rfl).1 (.text "u") rfl
  · have hconfidence : (e.reason (.map (fields "mixed"))).confidence ≠
        (e.reason (.map (fields "hybrid"))).confidence := by decide +kernel
    exact fun hsame => hconfidence (congrArg Answer.confidence hsame)

end Engine

end KnowledgeGraph
