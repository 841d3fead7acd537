import KnowledgeGraph.Store.Exchange

/-!
# Commands

A command is a call of the store with all its arguments. `Store.perform` carries one out and writes
down the answer.
-/

namespace KnowledgeGraph.Store

/-- A call of the store. -/
inductive Command where
  | add (record : Value)
  | get (id : Value)
  | query (pattern : Value)
  | all
  | remove (id : Value)
  | update (id updates : Value)
  | size
  | clear
  | exportText
  | importText (data : Value)
  | roundTrip

def writeAtoms (atoms : List Atom) : Except Fault Value := return .list (← atoms.mapM Atom.toRecord)

/-- Writes an atom that may be missing. -/
def writeAtom? : Option Atom → Except Fault Value
  | none => .ok .null
  | some a => a.toRecord

/-- Carries out a command and writes down its answer. -/
def perform : Command → Attempt Store Value
  | .add record => addRecord record
  | .get id => do writeAtom? (← (← MonadState.get).atom? id)
  | .query pattern => do writeAtoms (← (← MonadState.get).queryRecord pattern)
  | .all => do writeAtoms (← MonadState.get).all
  | .remove id => return .bool (← remove id)
  | .update id updates => return .bool (← update id updates)
  | .size => return .count (← MonadState.get).size
  | .clear => do
    clear
    return .null
  | .exportText => do return .text (← (← MonadState.get).exportText)
  | .importText data => return .count (← importText data)
  | .roundTrip => return .count (← roundTrip)

end KnowledgeGraph.Store
