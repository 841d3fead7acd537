import KnowledgeGraph.Proofs.Number.Exact
import KnowledgeGraph.Proofs.Pattern.Detection
import KnowledgeGraph.Proofs.Sorting

/-!
# The order in which interactions are listed

Interactions are looked at in the order of their times. Times compare as the rational numbers they
stand for, whole numbers of any size with floats (`numberLE_iff`), so different times leave only one
order, whatever the order of the list (`interactionsOf_perm`). The patterns in a record depend on its
interactions in this order and on its usage (`behaviorPatterns_congr`).
-/

namespace KnowledgeGraph

/-! ## Times -/

/-- The time of an interaction that has a usable one: a float that is finite, or a whole number in the
range of floats, as the rational number that it stands for. -/
def Value.time? : Value → Option ℚ
  | .map es => match Entries.get? es "timestamp" with
    | some (.int n) => (floatOfInt n).toOption.map fun _ => (n : ℚ)
    | some (.float x) => if x.isFinite then some (value x) else none
    | _ => none
  | _ => none

namespace Interaction

/-- The rational number that the time of an interaction stands for. -/
def instant (i : Interaction) : ℚ := (i.time.quantity?.map Quantity.value).getD 0

/-- The time is a finite number. -/
def IsTimed (i : Interaction) : Prop := ∃ q, i.time.quantity? = some q ∧ q.IsFinite

theorem isTimed_of_ofValue? {v : Value} {i : Interaction} (h : ofValue? v = some i) :
    i.IsTimed := by
  unfold ofValue? at h
  split at h
  · split at h
    · rename_i time _
      obtain ⟨x, hx, rfl⟩ := Option.map_eq_some_iff.1 h
      unfold Value.finite? at hx
      split at hx
      · rename_i n heq
        cases heq
        exact ⟨.int n, rfl, trivial⟩
      · rename_i y heq
        cases heq
        split at hx
        · rename_i hfinite
          exact ⟨.float y, rfl, hfinite⟩
        · cases hx
      · cases hx
    · cases h
  · cases h

theorem map_instant_ofValue? (v : Value) : (ofValue? v).map instant = v.time? := by
  cases v with
  | scalar _ | list _ => rfl
  | map es =>
    unfold ofValue? Value.time?
    dsimp only
    cases Entries.get? es "timestamp" with
    | none => rfl
    | some time =>
      cases time with
      | list _ | map _ => rfl
      | scalar k =>
        cases k with
        | null | bool _ | nan _ | text _ => rfl
        | int n =>
          show Option.map instant (Option.map _ (floatOfInt n).toOption) = _
          rw [Option.map_map]
          rfl
        | float x =>
          show Option.map instant (Option.map _ (if x.isFinite then some x else none)) = _
          by_cases hx : x.isFinite = true
          · simp only [if_pos hx]
            rfl
          · simp only [if_neg hx]
            rfl

theorem numberLE_iff {i j : Interaction} (hi : i.IsTimed) (hj : j.IsTimed) :
    i.time.numberLE j.time = true ↔ i.instant ≤ j.instant := by
  obtain ⟨q, hq, hfinite⟩ := hi
  obtain ⟨r, hr, hfinite'⟩ := hj
  unfold Scalar.numberLE instant
  simp only [hq, hr, Option.map_some, Option.getD_some, Bool.not_eq_true', ← Bool.not_eq_true,
    Quantity.less_iff hfinite' hfinite, not_lt]

end Interaction

/-! ## One order -/

section

variable {items items' : List Value}

theorem filterMap_time? (items : List Value) :
    items.filterMap Value.time? = (items.filterMap Interaction.ofValue?).map Interaction.instant := by
  rw [List.map_filterMap]
  exact List.filterMap_congr fun v _ => (Interaction.map_instant_ofValue? v).symm

theorem isFalling_interactionsOf (items : List Value) :
    IsFalling (fun i : Interaction => OrderDual.toDual i.instant)
      (items.filterMap Interaction.ofValue?) (interactionsOf (.list items)) := by
  have htimed : ∀ i ∈ items.filterMap Interaction.ofValue?, i.IsTimed := by
    intro i hi
    obtain ⟨v, -, hv⟩ := List.mem_filterMap.1 hi
    exact Interaction.isTimed_of_ofValue? hv
  refine isFalling_mergeSort fun i hi j hj => ?_
  rw [Bool.eq_iff_iff, decide_eq_true_iff, OrderDual.toDual_le_toDual]
  exact Interaction.numberLE_iff (htimed i hi) (htimed j hj)

/-- The order of the list makes no difference where the times are different. -/
theorem interactionsOf_perm (h : items'.Perm items) (hdistinct : (items.filterMap Value.time?).Nodup) :
    interactionsOf (.list items') = interactionsOf (.list items) := by
  have hsort := isFalling_interactionsOf items
  have hsort' := isFalling_interactionsOf items'
  have hperm := (hsort'.perm.trans (h.filterMap _)).trans hsort.perm.symm
  rw [filterMap_time?] at hdistinct
  have hnodup := (hsort.perm.map Interaction.instant).nodup_iff.2 hdistinct
  refine hperm.eq_of_pairwise (fun i j hi hj hij hji => ?_) hsort'.falling hsort.falling
  exact List.inj_on_of_nodup_map hnodup (hperm.mem_iff.1 hi) hj (le_antisymm hij hji)

theorem interactionsOf_congr (h : items'.filter (·.time?.isSome) = items.filter (·.time?.isSome)) :
    interactionsOf (.list items') = interactionsOf (.list items) := by
  have hfilter (items : List Value) : (items.filter (·.time?.isSome)).filterMap Interaction.ofValue? =
      items.filterMap Interaction.ofValue? := by
    rw [List.filterMap_filter]
    refine List.filterMap_congr fun v _ => ?_
    rw [← Interaction.map_instant_ofValue?, Option.isSome_map]
    cases Interaction.ofValue? v <;> rfl
  unfold interactionsOf
  dsimp only
  rw [← hfilter items', h, hfilter]

end

/-! ## Patterns -/

section

variable {config : DetectionConfig} {record : Entries}

/-- The patterns depend on the interactions in the order of their times. -/
theorem behaviorPatterns_congr {v w : Value} (hrecord : Entries.get? record "interactions" = some v)
    (h : interactionsOf w = interactionsOf v) :
    behaviorPatterns config (Entries.set record "interactions" w) =
      behaviorPatterns config record := by
  have hinteractions : Entries.get? (Entries.set record "interactions" w) "interactions" = some w :=
    Table.lookup?_put_self (Key.sharp_text _) record w
  have husage : Entries.get? (Entries.set record "interactions" w) "usage" =
      Entries.get? record "usage" :=
    Table.lookup?_put_of_ne (Key.sharp_text _) (Key.sharp_text _) (by decide) record w
  unfold behaviorPatterns
  simp only [hinteractions, husage, hrecord, Option.getD_some, h]

/-- **The order of interactions.** However the interactions of a record are ordered, the patterns in
it are the same, if the usable times are different as numbers. What has no usable time makes no
difference anywhere in the list, also where times are the same. If the settings are usable, there
are patterns to speak of: the search for them ends well just where the actions can be written. -/
theorem behaviorPatterns_perm {items : List Value}
    (hrecord : Entries.get? record "interactions" = some (.list items)) :
    (∀ items', items'.Perm items → (items.filterMap Value.time?).Nodup →
      behaviorPatterns config (Entries.set record "interactions" (.list items')) =
        behaviorPatterns config record) ∧
    (∀ items', items'.filter (·.time?.isSome) = items.filter (·.time?.isSome) →
      behaviorPatterns config (Entries.set record "interactions" (.list items')) =
        behaviorPatterns config record) ∧
    (config.IsUsable →
      (Except.Returns (behaviorPatterns config record) ↔ HaveWritableActions record)) := by
  refine ⟨fun items' hperm hdistinct => ?_, fun items' hsame => ?_, fun hconfig => ⟨?_, ?_⟩⟩
  · exact behaviorPatterns_congr hrecord (interactionsOf_perm hperm hdistinct)
  · exact behaviorPatterns_congr hrecord (interactionsOf_congr hsame)
  · intro hreturns
    by_contra hwritable
    rw [behaviorPatterns_tooManyDigits hwritable] at hreturns
    exact Except.not_returns_error _ hreturns
  · exact fun hwritable => (behaviorPatterns_finds hconfig hwritable).returns

/-- A whole number, a float and a truth value as times, in two orders, and without the truth value. -/
theorem behaviorPatterns_perm_mixed :
    let entry (time : Value) (action : String) : Value :=
      .record [("timestamp", time), ("action", .text action)]
    let items := [entry (.int 2) "close", entry (.bool true) "wait", entry (.float 1) "open"]
    let reordered := [entry (.float 1) "open", entry (.int 2) "close", entry (.bool true) "wait"]
    let timed := [entry (.int 2) "close", entry (.float 1) "open"]
    let patterns (items : List Value) := behaviorPatterns {} [(.text "interactions", .list items)]
    Except.Returns (patterns items) ∧ patterns reordered = patterns items ∧
      patterns timed = patterns items := by
  intro entry items reordered timed patterns
  have hrecord : Entries.get? [(.text "interactions", .list items)] "interactions" =
      some (.list items) := rfl
  obtain ⟨hperm, hunused, hreturns⟩ := @behaviorPatterns_perm {} _ items hrecord
  have hwhole : (entry (.int 2) "close").time? = some 2 := rfl
  have hfloat : (entry (.float 1) "open").time? = some 1 := by
    show (if (1 : Float).isFinite = true then some (value 1) else none) = some 1
    rw [if_pos inUnit_one.isFinite, value_one]
  have htruth : (entry (.bool true) "wait").time? = none := rfl
  have hwritable := @haveWritableActions_of_isWritable [(.text "interactions", .list items)]
  refine ⟨(hreturns DetectionConfig.isUsable_default).2 (hwritable (by decide +kernel)),
    hperm reordered ?_ ?_, hunused timed ?_⟩
  · exact (List.perm_append_singleton _ _).symm
  · simp [items, hwhole, hfloat, htruth]
  · simp [items, timed, hwhole, hfloat, htruth]

end

end KnowledgeGraph
