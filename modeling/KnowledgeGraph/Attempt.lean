import KnowledgeGraph.Fault

/-!
# Attempts

An attempt is a computation on a state that may stop at a fault. What it changed before the fault
stays changed.
-/

namespace KnowledgeGraph

/-- A computation on a state that may stop at a fault and then keeps what it changed. -/
abbrev Attempt (σ : Type) := ExceptT Fault (StateM σ)

instance {σ : Type} : MonadLift (Except Fault) (Attempt σ) where
  monadLift e := ExceptT.mk (pure e)

namespace Attempt

variable {σ τ α : Type}

/-- Runs an attempt: its outcome and the new state. -/
def runOn (x : Attempt σ α) (s : σ) : Except Fault α × σ := (x.run).run s

/-- Runs an attempt on a part of the state. -/
def within (part : σ → τ) (replace : σ → τ → σ) (x : Attempt τ α) : Attempt σ α :=
  ExceptT.mk fun s =>
    let (outcome, t) := x.runOn (part s)
    (outcome, replace s t)

end Attempt

end KnowledgeGraph
