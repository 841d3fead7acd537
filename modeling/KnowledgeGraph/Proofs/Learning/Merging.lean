import KnowledgeGraph.Proofs.Learning.Writes
import KnowledgeGraph.Proofs.Value.Same

/-!
# Merged preferences and parameters

The preferences of a user and the parameters of an adaptation are merges (`Entries.IsMerge`): each
step writes the entries that were given, and then a value of the learner's own under a reserved
name. What was given in a run is read off its calls (`mergings`, `refreshes`). One more turn adds
the step that its call says (`Sums.step`), so after any calls that return the two tables are the
merges of all that was given (`after_merges`).
-/

namespace KnowledgeGraph

/-! ## Merges -/

/-- The entries were written in steps: each step wrote the entries that it was given, and then a
value of its own under a reserved name. Under every other key stands the value that was given
last. -/
structure Entries.IsMerge (reserved : String) (steps : List (Entries × Value)) (es : Entries) :
    Prop where
  simple : Table.IsSimple es
  latest : ∀ k, k ≠ .text reserved →
    Table.lookup? es k = Table.lookup? (steps.flatMap (·.1)).reverse k
  own : Entries.get? es reserved = steps.getLast?.map (·.2)

theorem Entries.isMerge_nil (reserved : String) : IsMerge reserved [] [] :=
  ⟨.nil, fun _ _ => rfl, rfl⟩

theorem Entries.IsMerge.concat {reserved : String} {steps : List (Entries × Value)} {es : Entries}
    (h : IsMerge reserved steps es) (given : Entries) (own : Value) :
    IsMerge reserved (steps ++ [(given, own)])
      (Entries.set (Table.merge es given) reserved own) := by
  constructor
  · exact (h.simple.merge given).put _ own
  · intro k hk
    have hother : Key.same (Scalar.text reserved) k = false := by
      rw [← Bool.not_eq_true]
      exact fun hsame => hk (Key.eq_of_text_same hsame)
    unfold Entries.set
    rw [Table.lookup?_put, hother, if_neg Bool.false_ne_true, Table.lookup?_merge, h.latest k hk,
      List.flatMap_append, List.reverse_append, List.flatMap_singleton]
    exact (Table.lookup?_append given.reverse _ k).symm
  · rw [List.getLast?_concat]
    exact Table.lookup?_put_self (Key.sharp_text reserved) _ own

namespace Learner

variable {config : LearningConfig} {l l' : Learner}

/-! ## Turns -/

/-- A call that was carried out, with what came out and the learner that it left. -/
structure Turn where
  command : Command
  outcome : Except Fault Value
  learner : Learner

/-- A call is carried out at its time. -/
def turn (l : Learner) (call : Nat × Command) : Turn :=
  let result := (perform call.2).runOn { l with now := call.1 }
  ⟨call.2, result.1, result.2⟩

/-- Calls are carried out one after another. -/
def turns : Learner → List (Nat × Command) → List Turn
  | _, [] => []
  | l, call :: rest => turn l call :: turns (turn l call).learner rest

variable {calls : List (Nat × Command)} {ts : List Turn}

theorem turns_concat (config : LearningConfig) (calls : List (Nat × Command))
    (call : Nat × Command) : turns (start config) (calls ++ [call]) =
      turns (start config) calls ++ [turn (after config calls) call] := by
  unfold after
  generalize start config = l
  induction calls generalizing l with
  | nil => rfl
  | cons first rest ih => exact congrArg (turn l first :: ·) (ih (turn l first).learner)

/-! ## What was given -/

/-- What a merge gives for the preferences of a user, with the time. -/
def mergingFor (u : Scalar) (now : Nat) : Option (Scalar × Entries) → Option (Entries × Value)
  | some (v, given) => if Key.same v u then some (given, .count now) else none
  | none => none

/-- All that calls give for the preferences of a user, in order. -/
def mergings (u : Scalar) (calls : List (Nat × Command)) : List (Entries × Value) :=
  calls.filterMap fun call => mergingFor u call.1 call.2.merging?

/-- What is given for the adaptation of a pair, with what is recommended then. -/
def refreshFor (pair : Scalar × Scalar) (recommended : Scalar → Entries) :
    Option Addressing → Option (Entries × Value)
  | some ad => if Key.same ad.pair pair then
      ad.data?.map fun data => (adopted data, .map (recommended ad.user))
    else none
  | none => none

/-- All that turns give for the adaptation of a pair, in order. -/
def refreshes (pair : Scalar × Scalar) (ts : List Turn) : List (Entries × Value) :=
  ts.filterMap fun t => refreshFor pair t.learner.recommended t.command.addressing?

/-- The pairs of users and domains whose adaptations calls are about, in order. -/
def pairs (calls : List (Nat × Command)) : List (Scalar × Scalar) :=
  calls.filterMap fun call => call.2.addressing?.map Addressing.pair

theorem filterMap_concat {α β : Type} (f : α → Option β) (xs : List α) (x : α) :
    (xs ++ [x]).filterMap f = xs.filterMap f ++ (f x).toList := by
  rw [List.filterMap_append, List.filterMap_cons, List.filterMap_nil]
  cases f x <;> rfl

/-! ## Single turns -/

/-- A merge adds one step to the preferences of its user, and leaves those of others alone. -/
theorem isMerge_mergeInto {t : Table Scalar Entries} {u : Scalar} {steps : List (Entries × Value)}
    (h : Entries.IsMerge "lastUpdated" steps ((t.lookup? u).getD [])) (now : Nat)
    (merging? : Option (Scalar × Entries)) :
    Entries.IsMerge "lastUpdated" (steps ++ (mergingFor u now merging?).toList)
      (((mergeInto now t merging?).lookup? u).getD []) := by
  cases merging? with
  | none => simpa [mergingFor, mergeInto] using h
  | some m =>
    obtain ⟨v, given⟩ := m
    unfold mergingFor mergeInto
    dsimp only
    rw [Table.lookup?_put]
    split
    · rename_i hsame
      rw [Table.lookup?_congr hsame]
      exact h.concat given (.count now)
    · rwa [Option.toList_none, List.append_nil]

/-- Preferences are there exactly if something was merged into them. -/
theorem lookup?_mergeInto_eq_none {t : Table Scalar Entries} {u : Scalar} (now : Nat)
    (merging? : Option (Scalar × Entries)) :
    (mergeInto now t merging?).lookup? u = none ↔
      t.lookup? u = none ∧ mergingFor u now merging? = none := by
  cases merging? with
  | none => simp [mergingFor, mergeInto]
  | some m =>
    obtain ⟨v, given⟩ := m
    unfold mergingFor mergeInto
    dsimp only
    rw [Table.lookup?_put]
    split <;> simp

/-- The adaptation is of a user and a domain that are the same as these. -/
def IsOf (pair : Scalar × Scalar) (a : Adaptation) : Prop :=
  ∃ u d, a.userId = .scalar u ∧ a.domain = .scalar d ∧ Key.same (u, d) pair = true

section

variable {ad? : Option Addressing} {pair : Scalar × Scalar}

/-- Where an adaptation is addressed, one stands under the pair afterwards. -/
theorem Renews.lookup? {ad : Addressing} (h : Renews l l' (some ad)) : ∃ a a',
    ad.Finds l.adaptations a ∧ SameAdaptation a a' ∧
      a'.parameters = renewed (l'.recommended ad.user) a.parameters ad.data? ∧
      ∀ pair, l'.adaptations.lookup? pair =
        if Key.same ad.pair pair then some a' else l.adaptations.lookup? pair := by
  obtain ⟨a, a', hfinds, hsame, hparameters, htable⟩ := h
  exact ⟨a, a', hfinds, hsame, hparameters, fun pair => htable ▸ Table.lookup?_put ..⟩

theorem Renews.stays (h : Renews l l' ad?) {a : Adaptation}
    (hfound : l.adaptations.lookup? pair = some a) :
    ∃ a', l'.adaptations.lookup? pair = some a' ∧ SameAdaptation a a' := by
  cases ad? with
  | none => exact ⟨a, h ▸ hfound, rfl, rfl, rfl⟩
  | some ad =>
    obtain ⟨old, a', hfinds, hsame, -, hlookup⟩ := h.lookup?
    by_cases hpair : Key.same ad.pair pair = true
    · refine ⟨a', by rw [hlookup, if_pos hpair], ?_⟩
      rw [← Table.lookup?_congr hpair] at hfound
      obtain hold | ⟨hnone, -⟩ := hfinds
      · rw [hold, Option.some.injEq] at hfound
        rwa [← hfound]
      · rw [hnone] at hfound
        cases hfound
    · exact ⟨a, by rw [hlookup, if_neg hpair, hfound], rfl, rfl, rfl⟩

theorem Renews.isOf (h : Renews l l' ad?)
    (hl : ∀ pair a, l.adaptations.lookup? pair = some a → IsOf pair a)
    (hpair : ∀ ad, ad? = some ad → Key.same ad.pair ad.pair = true) :
    ∀ pair a, l'.adaptations.lookup? pair = some a → IsOf pair a := by
  cases ad? with
  | none => exact h ▸ hl
  | some ad =>
    intro pair a' hfound
    obtain ⟨a, new, hfinds, hsame, -, hlookup⟩ := h.lookup?
    rw [hlookup] at hfound
    split at hfound
    · rename_i hpair'
      cases hfound
      have hold : IsOf ad.pair a := by
        obtain hold | ⟨-, huser, hdomain, -⟩ := hfinds
        · exact hl _ _ hold
        · exact ⟨_, _, huser, hdomain, hpair ad rfl⟩
      obtain ⟨u, d, huser, hdomain, hof⟩ := hold
      exact ⟨u, d, hsame.userId.trans huser, hsame.domain.trans hdomain,
        PartialEquivKey.trans hof hpair'⟩
    · exact hl _ _ hfound

/-- The parameters under a pair, none if there is no adaptation. -/
def parametersIn (t : Table (Scalar × Scalar) Adaptation) (pair : Scalar × Scalar) : Entries :=
  ((t.lookup? pair).map (·.parameters)).getD []

theorem Addressing.Finds.parameters {ad : Addressing} {t : Table (Scalar × Scalar) Adaptation}
    {a : Adaptation} (h : ad.Finds t a) (hpair : Key.same ad.pair pair = true) :
    parametersIn t pair = a.parameters := by
  unfold parametersIn
  rw [← Table.lookup?_congr hpair]
  obtain hold | ⟨hnone, -, -, hempty⟩ := h
  · rw [hold]
    rfl
  · rw [hnone, hempty]
    rfl

/-- A refresh adds one step to the parameters of its pair, and leaves those of others alone.
Feedback adds none. -/
theorem Renews.isMerge {steps : List (Entries × Value)} (h : Renews l l' ad?)
    (hl : Entries.IsMerge "recommendations" steps (parametersIn l.adaptations pair)) :
    Entries.IsMerge "recommendations" (steps ++ (refreshFor pair l'.recommended ad?).toList)
      (parametersIn l'.adaptations pair) := by
  cases ad? with
  | none =>
    change l'.adaptations = l.adaptations at h
    rw [h]
    exact (List.append_nil steps).symm ▸ hl
  | some ad =>
    obtain ⟨a, a', hfinds, -, hparameters, hlookup⟩ := h.lookup?
    unfold refreshFor
    by_cases hpair : Key.same ad.pair pair = true
    · have hnew : parametersIn l'.adaptations pair = a'.parameters := by
        unfold parametersIn
        rw [hlookup, if_pos hpair]
        rfl
      rw [hfinds.parameters hpair] at hl
      rw [hnew, hparameters]
      dsimp only
      rw [if_pos hpair]
      cases ad.data? with
      | none => exact (List.append_nil steps).symm ▸ hl
      | some data => exact hl.concat (adopted data) _
    · have hold : parametersIn l'.adaptations pair = parametersIn l.adaptations pair := by
        unfold parametersIn
        rw [hlookup, if_neg hpair]
      dsimp only
      rw [hold, if_neg hpair]
      exact (List.append_nil steps).symm ▸ hl

theorem Renews.keys {ps : List (Scalar × Scalar)} (h : Renews l l' ad?)
    (hl : l.adaptations.keys = distinct ps) :
    l'.adaptations.keys = distinct (ps ++ (ad?.map Addressing.pair).toList) := by
  cases ad? with
  | none =>
    change l'.adaptations = l.adaptations at h
    rw [h, hl]
    exact congrArg distinct (List.append_nil ps).symm
  | some ad =>
    obtain ⟨a, a', -, -, -, htable⟩ := h
    rw [htable, Table.keys_put, Table.has_eq_any_keys, hl]
    exact (distinct_concat ps ad.pair).symm

end

/-! ## Runs -/

/-- The two tables say what was given by calls and their turns. -/
structure Sums (calls : List (Nat × Command)) (ts : List Turn) (l : Learner) : Prop where
  merged : ∀ u, Entries.IsMerge "lastUpdated" (mergings u calls) ((l.preferences.lookup? u).getD [])
  given : ∀ u, l.preferences.lookup? u = none ↔ mergings u calls = []
  refreshed : ∀ pair,
    Entries.IsMerge "recommendations" (refreshes pair ts) (parametersIn l.adaptations pair)
  isOf : ∀ pair a, l.adaptations.lookup? pair = some a → IsOf pair a
  keys : l.adaptations.keys = distinct (pairs calls)

/-- **One more turn.** A call that returns does to the tables what it says. -/
theorem Sums.step (h : Sums calls ts l) (call : Nat × Command)
    (hreturns : Except.Returns (turn l call).outcome)
    (hpair : ∀ ad, call.2.addressing? = some ad → Key.same ad.pair ad.pair = true) :
    Sums (calls ++ [call]) (ts ++ [turn l call]) (turn l call).learner := by
  obtain ⟨v, hv⟩ := hreturns
  have hrun : (perform call.2).runOn { l with now := call.1 } = (.ok v, (turn l call).learner) :=
    Prod.ext hv rfl
  obtain ⟨hpreferences, hadaptations⟩ := perform_eq_ok hrun hpair
  constructor
  · intro u
    unfold mergings
    rw [filterMap_concat, hpreferences]
    exact isMerge_mergeInto (h.merged u) call.1 call.2.merging?
  · intro u
    unfold mergings
    rw [filterMap_concat, hpreferences, lookup?_mergeInto_eq_none, List.append_eq_nil_iff]
    exact and_congr (h.given u) (by simp)
  · intro pair
    unfold refreshes
    rw [filterMap_concat]
    exact hadaptations.isMerge (h.refreshed pair)
  · exact hadaptations.isOf h.isOf hpair
  · unfold pairs
    rw [filterMap_concat]
    exact hadaptations.keys h.keys

theorem SameAdaptation.trans {a b c : Adaptation} (h : SameAdaptation a b)
    (h' : SameAdaptation b c) : SameAdaptation a c :=
  ⟨h'.id.trans h.id, h'.userId.trans h.userId, h'.domain.trans h.domain⟩

/-- The pairs that calls are about can be found again as keys. Of pairs that were read this holds of
all, for only a not-a-number without a mark cannot be found again. -/
def HavePairs (calls : List (Nat × Command)) : Prop :=
  ∀ pair ∈ pairs calls, Key.same pair pair = true

/-- All calls return when they are carried out one after another. -/
def AllReturn (config : LearningConfig) (calls : List (Nat × Command)) : Prop :=
  ∀ t ∈ turns (start config) calls, Except.Returns t.outcome

theorem havePairs_concat {call : Nat × Command} : HavePairs (calls ++ [call]) ↔
    HavePairs calls ∧ ∀ ad, call.2.addressing? = some ad → Key.same ad.pair ad.pair = true := by
  unfold HavePairs pairs
  rw [filterMap_concat, List.forall_mem_append]
  simp

theorem allReturn_concat {call : Nat × Command} : AllReturn config (calls ++ [call]) ↔
    AllReturn config calls ∧ Except.Returns (turn (after config calls) call).outcome := by
  unfold AllReturn
  rw [turns_concat, List.forall_mem_append, List.forall_mem_singleton]

/-- **Runs.** After calls that return, the tables say what was given. -/
theorem after_sums (hreturns : AllReturn config calls) (hpairs : HavePairs calls) :
    Sums calls (turns (start config) calls) (after config calls) := by
  induction calls using List.reverseRecOn with
  | nil =>
    exact ⟨fun _ => Entries.isMerge_nil _, fun _ => ⟨fun _ => rfl, fun _ => rfl⟩,
      fun _ => Entries.isMerge_nil _, nofun, rfl⟩
  | append_singleton calls call ih =>
    obtain ⟨hreturns, hcall⟩ := allReturn_concat.1 hreturns
    obtain ⟨hpairs, hpair⟩ := havePairs_concat.1 hpairs
    rw [turns_concat, after_concat]
    exact (ih hreturns hpairs).step call hcall hpair

theorem after_stays {more : List (Nat × Command)} (hreturns : AllReturn config (calls ++ more))
    (hpairs : HavePairs (calls ++ more)) {pair : Scalar × Scalar} {a : Adaptation}
    (hfound : (after config calls).adaptations.lookup? pair = some a) :
    ∃ a', (after config (calls ++ more)).adaptations.lookup? pair = some a' ∧
      SameAdaptation a a' := by
  induction more using List.reverseRecOn with
  | nil => exact ⟨a, (List.append_nil calls).symm ▸ hfound, rfl, rfl, rfl⟩
  | append_singleton more call ih =>
    rw [← List.append_assoc] at hreturns hpairs ⊢
    obtain ⟨hreturns, v, hv⟩ := allReturn_concat.1 hreturns
    obtain ⟨hpairs, hpair⟩ := havePairs_concat.1 hpairs
    obtain ⟨b, hb, hsame⟩ := ih hreturns hpairs
    have hrun : (perform call.2).runOn { after config (calls ++ more) with now := call.1 } =
        (.ok v, after config (calls ++ more ++ [call])) := by
      rw [after_concat]
      exact Prod.ext hv rfl
    obtain ⟨c, hc, hsame'⟩ := (perform_eq_ok hrun hpair).adaptations.stays hb
    exact ⟨c, hc, hsame.trans hsame'⟩

/-- What is given for an adaptation is adopted from data. -/
theorem exists_data_of_refreshFor {pair : Scalar × Scalar} {recommended : Scalar → Entries}
    {ad? : Option Addressing} {step : Entries × Value}
    (h : refreshFor pair recommended ad? = some step) : ∃ data, step.1 = adopted data := by
  unfold refreshFor at h
  split at h
  · split at h
    · obtain ⟨data, -, rfl⟩ := Option.map_eq_some_iff.1 h
      exact ⟨data, rfl⟩
    · cases h
  · cases h

/-- Parameters never name a domain, for no data that is adopted does. -/
theorem get?_domain_of_isMerge {pair : Scalar × Scalar} {es : Entries}
    (h : Entries.IsMerge "recommendations" (refreshes pair ts) es) :
    Entries.get? es "domain" = none := by
  have hsharp := Key.sharp_text "domain"
  unfold Entries.get?
  rw [h.latest _ (by decide), Table.lookup?_eq_none hsharp]
  intro hmem
  obtain ⟨e, he, hkey⟩ := List.mem_map.1 hmem
  obtain ⟨step, hstep, he⟩ := List.mem_flatMap.1 (List.mem_reverse.1 he)
  obtain ⟨t, -, ht⟩ := List.mem_filterMap.1 hstep
  obtain ⟨data, hdata⟩ := exists_data_of_refreshFor ht
  rw [hdata] at he
  obtain ⟨-, hother⟩ := List.mem_filter.1 he
  rw [hkey, hsharp.same_self] at hother
  cases hother

/-- **Merged preferences and parameters.** After calls that return, the preferences of a user are
there exactly if something was merged for the user, by a call or by a record, and are the merge of
all that was given, in order, with the time of the last merge. The adaptation of a user in a domain
is there exactly if a call, a record or feedback was about this pair. It stays the same one from
then on, and its parameters are the merge of all data that was given for the pair, in order and
without a domain, with what was recommended at the last refresh. There is one adaptation for each
pair, and the statistics count them. Users and domains are compared as keys are, texts by their
characters. -/
theorem after_merges (hreturns : AllReturn config calls) (hpairs : HavePairs calls) :
    let l := after config calls
    (∀ u, ∃ found?, l.preferences? (.scalar u) = .ok found? ∧
      (found? = none ↔ mergings u calls = []) ∧
      ∀ es, found? = some es → Entries.IsMerge "lastUpdated" (mergings u calls) es) ∧
    (∀ u d, ∃ found?, l.adaptation? (.scalar u) (.scalar d) = .ok found? ∧
      (found? = none ↔ ∀ pair ∈ pairs calls, Key.same pair (u, d) = false) ∧
      ∀ a, found? = some a → IsOf (u, d) a ∧
        Entries.IsMerge "recommendations" (refreshes (u, d) (turns (start config) calls))
          a.parameters ∧
        Entries.get? a.parameters "domain" = none) ∧
    (∀ earlier, earlier <+: calls → ∀ u d a,
      (after config earlier).adaptation? (.scalar u) (.scalar d) = .ok (some a) →
        ∃ a', l.adaptation? (.scalar u) (.scalar d) = .ok (some a') ∧ SameAdaptation a a') ∧
    l.adaptations.keys = distinct (pairs calls) ∧ l.adaptations.IsSimple ∧
    l.stats.field "userAdaptations" = .ok (.count (distinct (pairs calls)).length) := by
  intro l
  have hsums : Sums calls (turns (start config) calls) l := after_sums hreturns hpairs
  refine ⟨fun u => ⟨_, rfl, hsums.given u, ?_⟩, fun u d => ⟨_, rfl, ?_, fun a ha => ?_⟩, ?_,
    hsums.keys, ?_, ?_⟩
  · intro es hes
    have hmerged := hsums.merged u
    rwa [hes] at hmerged
  · rw [← Option.not_isSome_iff_eq_none, ← Table.has_eq_isSome, Table.has_eq_any_keys, hsums.keys,
      any_distinct, Bool.not_eq_true, List.any_eq_false]
    simp only [Bool.not_eq_true]
  · have hrefreshed := hsums.refreshed (u, d)
    unfold parametersIn at hrefreshed
    rw [ha] at hrefreshed
    exact ⟨hsums.isOf _ a ha, hrefreshed, get?_domain_of_isMerge hrefreshed⟩
  · rintro earlier ⟨more, rfl⟩ u d a ha
    obtain ⟨a', ha', hsame⟩ := after_stays hreturns hpairs (Except.ok.inj ha)
    exact ⟨a', congrArg Except.ok ha', hsame⟩
  · unfold Table.IsSimple
    rw [hsums.keys]
    exact pairwise_distinct _
  · rw [← hsums.keys]
    show Except.ok (Value.count l.adaptations.length) = _
    unfold Table.keys
    rw [List.length_map]

/-- Preferences and parameters are given from several sides, reserved names among them. -/
theorem after_merges_mixed :
    let ann := Value.record [("userId", .text "ann"), ("currentTask", .text "edit")]
    let calls : List (Nat × Command) := [
      (0, .personalize (.text "ann") (.record [("theme", .text "dark"), ("size", .int 3)])),
      (1, .learn (.record [("type", .text "personalization"), ("context", ann),
        ("input", .record [("theme", .text "light"), ("lastUpdated", .int 7)])])),
      (2, .feedback (.record [("rating", .int 5), ("helpful", .bool true)]) ann),
      (3, .adapt (.text "ann") (.text "edit")
        (.record [("domain", .text "draw"), ("tabs", .int 4)])),
      (4, .learn (.record [("type", .text "adaptive"), ("context", ann),
        ("input", .record [("domain", .text "edit"), ("tabs", .int 2),
          ("recommendations", .text "all")])]))]
    let l := after {} calls
    AllReturn {} calls ∧ HavePairs calls ∧
      (∃ es, l.preferences? (.text "ann") = .ok (some es) ∧
        Entries.get? es "theme" = some (.text "light") ∧ Entries.get? es "size" = some (.int 3) ∧
        Entries.get? es "lastUpdated" = some (.count 1)) ∧
      (∃ a, l.adaptation? (.text "ann") (.text "edit") = .ok (some a) ∧
        Entries.get? a.parameters "tabs" = some (.int 2) ∧
        Entries.get? a.parameters "recommendations" = some (.map []) ∧
        Entries.get? a.parameters "domain" = none) ∧
      l.stats.field "userAdaptations" = .ok (.count 1) := by
  intro ann calls l
  have hoks : ∀ t ∈ turns (start {}) calls, t.outcome.isOk = true := by decide +kernel
  have hreturns : AllReturn {} calls := fun t ht => Except.returns_of_isOk (hoks t ht)
  have hpairs : HavePairs calls := by
    unfold HavePairs
    decide +kernel
  obtain ⟨hpreferences, hadaptations, -, -, -, hcount⟩ := after_merges hreturns hpairs
  refine ⟨hreturns, hpairs, ?_, ?_, hcount⟩
  · obtain ⟨found?, hfound, hnone, hmerge⟩ := hpreferences (.text "ann")
    have hmergings : mergings (.text "ann") calls ≠ [] := by decide +kernel
    obtain ⟨es, rfl⟩ := Option.ne_none_iff_exists'.1 (mt hnone.1 hmergings)
    have hes := hmerge es rfl
    refine ⟨es, hfound, (hes.latest _ (by decide)).trans ?_, (hes.latest _ (by decide)).trans ?_,
      hes.own.trans ?_⟩ <;> decide +kernel
  · obtain ⟨found?, hfound, hnone, hmerge⟩ := hadaptations (.text "ann") (.text "edit")
    have haddressed : ¬ ∀ pair ∈ pairs calls,
        Key.same pair (Scalar.text "ann", Scalar.text "edit") = false := by decide +kernel
    obtain ⟨a, rfl⟩ := Option.ne_none_iff_exists'.1 (mt hnone.1 haddressed)
    obtain ⟨-, ha, hdomain⟩ := hmerge a rfl
    refine ⟨a, hfound, (ha.latest _ (by decide)).trans ?_, ha.own.trans ?_, hdomain⟩ <;>
      decide +kernel

end Learner

end KnowledgeGraph
