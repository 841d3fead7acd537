import KnowledgeGraph.Pattern.Sequence

/-!
# Patterns in behaviour records

A behaviour record lists interactions, each with a time and perhaps an action, and may hold a usage
summary. The interactions are looked at in the order of their times; those without a usable time
are passed over.
-/

namespace KnowledgeGraph

/-! ## Interactions -/

/-- An interaction: its record, its time, and the time as a float. -/
structure Interaction where
  record : Entries
  time : Scalar
  seconds : Float

/-- An interaction with a finite number as its time. -/
def Interaction.ofValue? : Value → Option Interaction
  | .map es => match Entries.get? es "timestamp" with
    | some (.scalar time) => (Value.scalar time).finite?.map fun x => ⟨es, time, x⟩
    | _ => none
  | _ => none

/-- The interactions with a usable time, by rising times. -/
def interactionsOf (v : Value) : List Interaction :=
  match v with
  | .list items =>
    (items.filterMap Interaction.ofValue?).mergeSort fun a b => a.time.numberLE b.time
  | _ => []

/-- The action of an interaction that has one. -/
def Interaction.action? (i : Interaction) : Option Value := Entries.get? i.record "action"

/-- The texts of the actions that are taken, in order. -/
def actionsOf (interactions : List Interaction) : Except Fault (List String) :=
  (interactions.filterMap Interaction.action?).mapM Value.toText

/-- The pace of interactions, with the share of the mean interval that the deviation leaves as the
consistency. -/
def rhythmPattern (interactions : List Interaction) (actions : List String) : Pattern :=
  let times := interactions.map (·.seconds)
  let intervals := neighbourPairs (fun a b => b - a) times
  let interval := mean intervals
  let variability := if 0 < interval then deviation intervals / interval else 0
  let consistency := if 0 < interval then most 0 (1 - variability) else 0
  let timespan := times.getLast?.getD 0 - times.head?.getD 0
  .of (.rhythm interval consistency timespan variability (Table.tally actions))
    (0.2 + 0.8 * consistency) (interactions.map fun i => .raw (.map i.record))

/-- The most frequent step from an action to the next, if it is taken twice. -/
def flowPattern? (actions : List String) : Option Pattern :=
  let steps := neighbourPairs Prod.mk actions
  match Table.mostCounted? (Table.tally steps) with
  | none => none
  | some ((source, target), count) =>
    if count < 2 then none
    else some (.of (.flow source target count) (quotient count (actions.length - 1))
      ((steps.filter fun s => s == (source, target)).map fun (a, b) =>
        .raw (.record [("from", .text a), ("to", .text b)])))

/-! ## Usage -/

/-- A value as a finite number, zero if it is none. Texts may spell a number; truth values do not
count. -/
def Value.amount : Value → Float
  | .bool _ => 0
  | v => match v.toFloat with
    | .ok x => if x.isFinite then x else 0
    | .error _ => 0

def usagePattern (config : DetectionConfig) (usage : Entries) : Except Fault Pattern := do
  let features := match Entries.get? usage "features" with
    | some (.list items) => items
    | _ => []
  let amountOf (v : Option Value) : Float := (v.getD .null).amount
  let frequency := amountOf (Entries.get? usage "frequency")
  let duration := amountOf (Entries.get? usage "duration")
  let tasks := amountOf ((Entries.get? usage "tasksCompleted").or (Entries.get? usage "tasks"))
  let spent := amountOf (((Entries.get? usage "timeSpent").or (Entries.get? usage "time")).or
    (some (.float duration)))
  let efficiency := if 0 < spent then tasks / spent else 0
  return .of (.usage frequency duration efficiency features) (← config.usageConfidence.toFloat)
    (features.map .raw)

/-! ## Records -/

/-- The patterns in a behaviour record. -/
def behaviorPatterns (config : DetectionConfig) (record : Entries) :
    Except Fault (List Pattern) := do
  let interactions := interactionsOf ((Entries.get? record "interactions").getD .null)
  let paces ← if interactions.length < 2 then pure []
    else do
      let actions ← actionsOf interactions
      pure (rhythmPattern interactions actions :: (flowPattern? actions).toList)
  match Entries.get? record "usage" with
  | some (.map usage) => return paces ++ [← usagePattern config usage]
  | _ => return paces

end KnowledgeGraph
