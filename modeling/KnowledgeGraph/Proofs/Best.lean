import KnowledgeGraph.Proofs.Sorting

/-!
# The best of a list

Of equally good members the first counts as the best one (`IsFirstBest`). A table that takes a member
in only if nothing as good is under its key ends up with the first best member of each key, in the
order in which the keys come in (`isBestOfEach_values`). What occurs most often is found by counting
(`isByFrequency_byCount`, `isMostFrequent_mostCounted`), also where a key is left out (`erase_tally`).
-/

namespace KnowledgeGraph

variable {α β : Type}

/-! ## The first best -/

/-- A member of a list that is above all members before it, and that none after it is above. -/
def IsFirstBest {L : Type} [LT L] [LE L] (number : α → L) (as : List α) (a : α) : Prop :=
  ∃ before after, as = before ++ a :: after ∧ (∀ b ∈ before, number b < number a) ∧
    ∀ b ∈ after, number b ≤ number a

theorem IsFirstBest.mem {L : Type} [LT L] [LE L] {number : α → L} {as : List α} {a : α}
    (h : IsFirstBest number as a) : a ∈ as := by
  obtain ⟨before, after, rfl, -⟩ := h
  exact List.mem_append_right _ List.mem_cons_self

theorem IsFirstBest.map {L : Type} [LT L] [LE L] {number : β → L} {f : α → β} {as : List α} {a : α}
    (h : IsFirstBest (fun a => number (f a)) as a) : IsFirstBest number (as.map f) (f a) := by
  obtain ⟨before, after, rfl, hbefore, hafter⟩ := h
  exact ⟨before.map f, after.map f, List.map_append, List.forall_mem_map.2 hbefore,
    List.forall_mem_map.2 hafter⟩

/-- Floats are compared like their places, as long as there is no not-a-number. -/
theorem IsFirstBest.float {number : α → Float} {as : List α} {a : α}
    (h : IsFirstBest (fun a => rank (number a)) as a) (has : ∀ b ∈ as, (number b).isNaN = false) :
    IsFirstBest number as a := by
  have ha : (number a).isNaN = false := has a h.mem
  obtain ⟨before, after, rfl, hbefore, hafter⟩ := h
  rw [List.forall_mem_append, List.forall_mem_cons] at has
  refine ⟨before, after, rfl, fun b hb => ?_, fun b hb => ?_⟩
  · exact (lt_iff_rank (has.1 b hb) ha).2 (hbefore b hb)
  · exact (le_iff_rank (has.2.2 b hb) ha).2 (hafter b hb)

section

variable {L : Type} [LinearOrder L] {number : α → L} {as : List α} {a : α}

theorem IsFirstBest.le (h : IsFirstBest number as a) : ∀ b ∈ as, number b ≤ number a := by
  obtain ⟨before, after, rfl, hbefore, hafter⟩ := h
  rw [List.forall_mem_append, List.forall_mem_cons]
  exact ⟨fun b hb => (hbefore b hb).le, le_rfl, hafter⟩

theorem isFirstBest_singleton : IsFirstBest number [a] a :=
  ⟨[], [], rfl, List.forall_mem_nil _, List.forall_mem_nil _⟩

theorem IsFirstBest.append (h : IsFirstBest number as a) {b : α} (hb : number b ≤ number a) :
    IsFirstBest number (as ++ [b]) a := by
  obtain ⟨before, after, rfl, hbefore, hafter⟩ := h
  refine ⟨before, after ++ [b], List.append_assoc .., hbefore, ?_⟩
  exact List.forall_mem_append.2 ⟨hafter, List.forall_mem_singleton.2 hb⟩

theorem IsFirstBest.replace (h : IsFirstBest number as a) {b : α} (hb : number a < number b) :
    IsFirstBest number (as ++ [b]) b :=
  ⟨as, [], rfl, fun c hc => (h.le c hc).trans_lt hb, List.forall_mem_nil _⟩

end

/-! ## The best of each key -/

/-- One member for each key that occurs, in the order in which the keys occur first: the first best
of those with the key. -/
structure IsBestOfEach {κ L : Type} [DecidableEq κ] [LT L] [LE L] (key : α → κ) (number : α → L)
    (as kept : List α) : Prop where
  keys : kept.map key = (as.map key).eraseDups
  best : ∀ a ∈ kept, IsFirstBest number (as.filter (key · = key a)) a

/-- The numbers of the best do not depend on the order of the list. -/
theorem IsBestOfEach.exists_of_perm {κ L : Type} [DecidableEq κ] [LinearOrder L] {key : α → κ}
    {number : α → L} {as bs kept others : List α} (h : IsBestOfEach key number as kept)
    (h' : IsBestOfEach key number bs others) (hperm : as.Perm bs) :
    ∀ a ∈ kept, ∃ b ∈ others, key b = key a ∧ number b = number a := by
  intro a ha
  have hmem : a ∈ as.filter (key · = key a) := (h.best a ha).mem
  obtain ⟨b, hb, hkey⟩ : ∃ b ∈ others, key b = key a := by
    rw [← List.mem_map, h'.keys, List.mem_eraseDups]
    exact List.mem_map_of_mem (hperm.mem_iff.1 (List.mem_filter.1 hmem).1)
  have hmem' : b ∈ bs.filter (key · = key a) := hkey ▸ (h'.best b hb).mem
  refine ⟨b, hb, hkey, le_antisymm ((h.best a ha).le b ?_) ((h'.best b hb).le a ?_)⟩
  · exact (hperm.filter _).mem_iff.2 hmem'
  · rw [hkey]
    exact (hperm.filter _).mem_iff.1 hmem

theorem IsBestOfEach.float {κ : Type} [DecidableEq κ] {key : α → κ} {number : α → Float}
    {as kept : List α} (h : IsBestOfEach key (fun a => rank (number a)) as kept)
    (has : ∀ a ∈ as, (number a).isNaN = false) : IsBestOfEach key number as kept where
  keys := h.keys
  best a ha := (h.best a ha).float fun b hb => has b (List.mem_filter.1 hb).1

namespace Table

open Key (Sharp)

variable {κ ν : Type} [Key κ] [DecidableEq κ] {better : ν → ν → Bool}

omit [DecidableEq κ] in
/-- Puts an entry in unless the value under its key is as good. -/
def putBetter (better : ν → ν → Bool) (t : Table κ ν) (e : κ × ν) : Table κ ν :=
  match t.lookup? e.1 with
  | some known => if better e.2 known then t.put e.1 e.2 else t
  | none => t.put e.1 e.2

omit [DecidableEq κ] in
/-- What is put in comes to the place where it would be written. -/
theorem keys_putBetter {e : κ × ν} (hk : Sharp e.1) (t : Table κ ν) :
    (putBetter better t e).keys = (t.put e.1 e.2).keys := by
  unfold putBetter
  split
  · rename_i known hknown
    have hmem : (e.1, known) ∈ t := mem_of_lookup? hk hknown
    split
    · rfl
    · exact (keys_put_of_mem hk (List.mem_map.2 ⟨_, hmem, rfl⟩)).symm
  · rfl

omit [DecidableEq κ] in
theorem keys_put_congr {k : κ} (hk : Sharp k) {t u : Table κ ν} (h : t.keys = u.keys) (v w : ν) :
    (t.put k v).keys = (u.put k w).keys := by
  by_cases hmem : k ∈ t.keys
  · rw [keys_put_of_mem hk hmem, keys_put_of_mem hk (h ▸ hmem), h]
  · rw [put_of_not_mem hk hmem, put_of_not_mem hk (h ▸ hmem), keys_append, keys_append, h]
    rfl

omit [DecidableEq κ] in
/-- The keys are those of a table into which all entries are written. -/
theorem keys_foldl_putBetter {es : Table κ ν} (hes : ∀ k ∈ es.keys, Sharp k) :
    keys (es.foldl (putBetter better) []) = (merge [] es).keys := by
  induction es using List.reverseRecOn with
  | nil => rfl
  | append_singleton es e ih =>
    rw [keys_append, List.forall_mem_append] at hes
    have hk : Sharp e.1 := hes.2 e.1 List.mem_cons_self
    rw [List.foldl_append, merge_append]
    exact (keys_putBetter hk _).trans (keys_put_congr hk (ih hes.1) _ _)

omit [DecidableEq κ] in
/-- What is there after an entry came in: it was there under another key, it is the entry, which is
new or better than what was under its key, or it is what the entry is not better than. -/
theorem mem_putBetter {e found : κ × ν} {t : Table κ ν} (hk : Sharp e.1) (hnd : t.keys.Nodup)
    (h : found ∈ putBetter better t e) :
    found ∈ t ∧ found.1 ≠ e.1 ∨ found = e ∧ e.1 ∉ t.keys ∨
    (found = e ∧ ∃ known, (e.1, known) ∈ t ∧ better e.2 known = true) ∨
    found ∈ t ∧ found.1 = e.1 ∧ better e.2 found.2 = false := by
  unfold putBetter at h
  split at h
  · rename_i known hknown
    split at h
    · rename_i hbetter
      obtain heq | hother := eq_or_of_mem_put hk hnd h
      · exact .inr (.inr (.inl ⟨heq, known, mem_of_lookup? hk hknown, hbetter⟩))
      · exact .inl hother
    · rename_i hbetter
      by_cases hkey : found.1 = e.1
      · have hfound := lookup?_of_mem (hkey ▸ hk) hnd h
        rw [hkey, hknown, Option.some.injEq] at hfound
        exact .inr (.inr (.inr ⟨h, hkey, hfound ▸ Bool.eq_false_iff.2 hbetter⟩))
      · exact .inl ⟨h, hkey⟩
  · rename_i hnone
    obtain heq | hother := eq_or_of_mem_put hk hnd h
    · exact .inr (.inl ⟨heq, (lookup?_eq_none hk).1 hnone⟩)
    · exact .inl hother

/-- A table that prefers the first best has it under each key. -/
theorem isFirstBest_of_mem {L : Type} [LinearOrder L] {number : ν → L} {es : Table κ ν}
    (hes : ∀ k ∈ es.keys, Sharp k)
    (hbetter : ∀ v ∈ es.values, ∀ w ∈ es.values, better v w = true ↔ number w < number v) :
    ∀ found ∈ es.foldl (putBetter better) [],
      IsFirstBest (fun e => number e.2) (es.filter (·.1 = found.1)) found := by
  induction es using List.reverseRecOn with
  | nil => exact List.forall_mem_nil _
  | append_singleton es e ih =>
    intro found hfound
    rw [keys_append, List.forall_mem_append] at hes
    rw [values_append] at hbetter
    have hk : Sharp e.1 := hes.2 e.1 List.mem_cons_self
    have hkeys : (keys (es.foldl (putBetter better) [])) = (keys es).eraseDups := by
      have hmerge := keys_merge hes.1 Function.injective_id
      rw [List.map_id, List.map_id] at hmerge
      exact (keys_foldl_putBetter hes.1).trans hmerge
    have hnd : (keys (es.foldl (putBetter better) [])).Nodup := hkeys ▸ nodup_eraseDups _
    have ih := ih hes.1 fun v hv w hw =>
      hbetter v (List.mem_append_left _ hv) w (List.mem_append_left _ hw)
    -- All that the table has was put in.
    have hmem : ∀ d ∈ es.foldl (putBetter better) [], d.2 ∈ values es := fun d hd =>
      List.mem_map_of_mem (List.mem_filter.1 (ih d hd).mem).1
    have hnew : e.2 ∈ values es ++ [e.2] := List.mem_append_right _ List.mem_cons_self
    rw [List.foldl_append] at hfound
    rw [List.filter_append, List.filter_cons, List.filter_nil]
    obtain ⟨hold, hne⟩ | ⟨rfl, hfresh⟩ | ⟨rfl, known, hold, hgreater⟩ | ⟨hold, hkey, hless⟩ :=
      mem_putBetter hk hnd hfound
    · rw [if_neg (by simpa using hne.symm), List.append_nil]
      exact ih found hold
    · have hnone : es.filter (·.1 = found.1) = [] := by
        rw [List.filter_eq_nil_iff]
        intro d hd hsame
        rw [hkeys, List.mem_eraseDups] at hfresh
        exact hfresh (of_decide_eq_true hsame ▸ List.mem_map_of_mem hd)
      rw [hnone, if_pos (decide_eq_true rfl)]
      exact isFirstBest_singleton
    · rw [if_pos (decide_eq_true rfl)]
      exact (ih _ hold).replace
        ((hbetter found.2 hnew known (List.mem_append_left _ (hmem _ hold))).1 hgreater)
    · rw [if_pos (decide_eq_true hkey.symm)]
      refine (ih found hold).append (not_lt.1 fun hlt => ?_)
      rw [(hbetter e.2 hnew found.2 (List.mem_append_left _ (hmem found hold))).2 hlt] at hless
      cases hless

/-- The values of a table that prefers the first best, where the keys of the table stand for those
of the values. -/
theorem isBestOfEach_values {L μ : Type} [LinearOrder L] [DecidableEq μ] {number : ν → L}
    {key : ν → μ} {f : κ → μ} {es : Table κ ν} (hes : ∀ k ∈ es.keys, Sharp k)
    (hf : Function.Injective f) (hkey : ∀ e ∈ es, f e.1 = key e.2)
    (hbetter : ∀ v ∈ es.values, ∀ w ∈ es.values, better v w = true ↔ number w < number v) :
    IsBestOfEach key number es.values (values (es.foldl (putBetter better) [])) := by
  have hbest := isFirstBest_of_mem hes hbetter
  have hmem : ∀ e ∈ es.foldl (putBetter better) [], e ∈ es := fun e he =>
    (List.mem_filter.1 (hbest e he).mem).1
  have hvalues : ∀ t : Table κ ν, (∀ e ∈ t, f e.1 = key e.2) → t.values.map key = t.keys.map f := by
    intro t ht
    unfold values keys
    rw [List.map_map, List.map_map]
    exact List.map_congr_left fun e he => (ht e he).symm
  constructor
  · rw [hvalues _ fun e he => hkey e (hmem e he), keys_foldl_putBetter hes, keys_merge hes hf,
      hvalues es hkey]
  · intro v hv
    obtain ⟨e, he, rfl⟩ := List.mem_map.1 hv
    have hfilter : es.values.filter (key · = key e.2) = (es.filter (·.1 = e.1)).map (·.2) := by
      unfold values
      rw [List.filter_map]
      refine congrArg _ (List.filter_congr fun d hd => ?_)
      show decide (key d.2 = key e.2) = decide (d.1 = e.1)
      rw [← hkey d hd, ← hkey e (hmem e he), decide_eq_decide, hf.eq_iff]
    rw [hfilter]
    exact (hbest e he).map

/-! ## The most frequent -/

/-- A tally lists what occurs, in the order of first occurrences. -/
theorem keys_tally {ks : List κ} (hsharp : ∀ k ∈ ks, Sharp k) : (tally ks).keys = ks.eraseDups := by
  induction ks using List.reverseRecOn with
  | nil => rfl
  | append_singleton ks k ih =>
    rw [List.forall_mem_append] at hsharp
    have ih := ih hsharp.1
    have hk : Sharp k := hsharp.2 k List.mem_cons_self
    unfold tally at ih ⊢
    rw [List.foldl_append, eraseDups_append_singleton, ← ih]
    show (put (ks.foldl countOne []) k _).keys = _
    by_cases hmem : k ∈ ks
    · rw [if_pos hmem, keys_put_of_mem hk (by rwa [ih, List.mem_eraseDups])]
    · rw [if_neg hmem, put_of_not_mem hk (by rwa [ih, List.mem_eraseDups]), keys_append]
      rfl

theorem eq_count_of_mem_tally {ks : List κ} (hsharp : ∀ k ∈ ks, Sharp k) :
    ∀ e ∈ tally ks, e.2 = ks.count e.1 := by
  induction ks using List.reverseRecOn with
  | nil => exact List.forall_mem_nil _
  | append_singleton ks k ih =>
    rw [List.forall_mem_append] at hsharp
    have ih := ih hsharp.1
    have hk : Sharp k := hsharp.2 k List.mem_cons_self
    have hkeys := keys_tally hsharp.1
    have hnd : (tally ks).keys.Nodup := hkeys ▸ nodup_eraseDups ks
    have hold : ((tally ks).lookup? k).getD 0 = ks.count k := by
      cases hfound : (tally ks).lookup? k with
      | none =>
        rw [lookup?_eq_none hk, hkeys, List.mem_eraseDups] at hfound
        exact (List.count_eq_zero.2 hfound).symm
      | some n => exact ih _ (mem_of_lookup? hk hfound)
    intro e he
    unfold tally at he
    rw [List.foldl_append] at he
    rw [List.count_append]
    obtain rfl | ⟨hmem, hne⟩ := eq_or_of_mem_put hk hnd he
    · exact congrArg (· + 1) hold |>.trans (by simp)
    · rw [ih e hmem, List.count_singleton, if_neg (by simpa using hne.symm), Nat.add_zero]

theorem erase_tally {k : κ} (hk : Sharp k) {ks : List κ} (hsharp : ∀ j ∈ ks, Sharp j) :
    (tally ks).erase k = tally (ks.filter (· ≠ k)) := by
  induction ks using List.reverseRecOn with
  | nil => rfl
  | append_singleton ks j ih =>
    rw [List.forall_mem_append] at hsharp
    have ih := ih hsharp.1
    have hj : Sharp j := hsharp.2 j List.mem_cons_self
    unfold tally at ih ⊢
    rw [List.filter_append, List.foldl_append, List.foldl_append, ← ih]
    by_cases hsame : j = k
    · rw [List.filter_cons_of_neg (by simp [hsame]), hsame]
      exact erase_put_self hk _ _
    · rw [List.filter_cons_of_pos (by simp [hsame])]
      show erase (put _ j _) k = put _ j _
      rw [erase_put_of_ne hj hk hsame, lookup?_erase_of_ne hj hsame hk]

end Table

/-- The members of a list by how often they occur there, and of those that are equally frequent the
one that occurs first before the others. -/
structure IsByFrequency [DecidableEq α] (as ranked : List α) : Prop where
  perm : ranked.Perm as.eraseDups
  falling : ranked.Pairwise fun a b =>
    as.count b < as.count a ∨ as.count a = as.count b ∧ as.idxOf a < as.idxOf b

/-- The member that occurs most often, and before all others that occur as often; none if there is
no member. -/
def IsMostFrequent [DecidableEq α] (as : List α) : Option α → Prop
  | none => as = []
  | some a => IsFirstBest as.count as.eraseDups a

namespace Table

open Key (Sharp)

variable {κ : Type} [Key κ] [DecidableEq κ] {ks : List κ} (hsharp : ∀ k ∈ ks, Sharp k)
include hsharp

/-- A tally by falling counts lists what occurs by how often it occurs. -/
theorem isByFrequency_byCount : IsByFrequency ks (byCount (tally ks)).keys := by
  have hsort : IsFalling Prod.snd (tally ks) (byCount (tally ks)) :=
    isFalling_mergeSort fun _ _ _ _ => rfl
  have hperm : (byCount (tally ks)).keys.Perm ks.eraseDups :=
    keys_tally hsharp ▸ hsort.perm.map Prod.fst
  have hfirst : (tally ks).Pairwise fun e f => ks.idxOf e.1 < ks.idxOf f.1 := by
    have hkeys := pairwise_idxOf_eraseDups ks
    rw [← keys_tally hsharp, keys, List.pairwise_map] at hkeys
    exact hkeys
  refine ⟨hperm, List.pairwise_map.2 ((hsort.pairwise hfirst).imp_of_mem fun {e f} he hf hef => ?_)⟩
  rwa [eq_count_of_mem_tally hsharp e (hsort.perm.mem_iff.1 he),
    eq_count_of_mem_tally hsharp f (hsort.perm.mem_iff.1 hf)] at hef

omit [DecidableEq κ] hsharp [Key κ] in
theorem mostCounted?_eq_none {t : Table κ Nat} : mostCounted? t = none ↔ t = [] := by
  cases t with
  | nil => exact iff_of_true rfl rfl
  | cons e rest =>
    unfold mostCounted?
    split
    · split <;> simp
    · simp

omit [DecidableEq κ] hsharp [Key κ] in
/-- The entry that is chosen has the greatest count, and is the first one that has it. -/
theorem isFirstBest_of_mostCounted {t : Table κ Nat} :
    ∀ {e : κ × Nat}, mostCounted? t = some e → IsFirstBest Prod.snd t e := by
  induction t with
  | nil => nofun
  | cons first rest ih =>
    intro e he
    unfold mostCounted? at he
    split at he
    · rename_i best hbest
      have hrest : IsFirstBest Prod.snd rest best := ih hbest
      split at he
      · rename_i hless
        obtain rfl := Option.some.inj he
        obtain ⟨before, after, rfl, hbefore, hafter⟩ := hrest
        exact ⟨first :: before, after, rfl, List.forall_mem_cons.2 ⟨hless, hbefore⟩, hafter⟩
      · rename_i hless
        obtain rfl := Option.some.inj he
        exact ⟨[], rest, rfl, List.forall_mem_nil _,
          fun b hb => (hrest.le b hb).trans (not_lt.1 hless)⟩
    · rename_i hnone
      obtain rfl := Option.some.inj he
      obtain rfl := mostCounted?_eq_none.1 hnone
      exact isFirstBest_singleton

/-- The entry of the greatest count in a tally has the most frequent key. -/
theorem isMostFrequent_mostCounted :
    IsMostFrequent ks ((mostCounted? (tally ks)).map Prod.fst) := by
  have hkeys : (tally ks).map Prod.fst = ks.eraseDups := keys_tally hsharp
  cases hmost : mostCounted? (tally ks) with
  | none =>
    rw [mostCounted?_eq_none.1 hmost] at hkeys
    cases ks with
    | nil => rfl
    | cons k ks => rw [List.eraseDups_cons] at hkeys; cases hkeys
  | some e =>
    show IsFirstBest ks.count ks.eraseDups e.1
    rw [← hkeys]
    obtain ⟨before, after, hsplit, hbefore, hafter⟩ := isFirstBest_of_mostCounted hmost
    have hcount := eq_count_of_mem_tally hsharp
    rw [hsplit, List.forall_mem_append, List.forall_mem_cons] at hcount
    refine IsFirstBest.map ⟨before, after, hsplit, fun b hb => ?_, fun b hb => ?_⟩
    · show ks.count b.1 < ks.count e.1
      rw [← hcount.1 b hb, ← hcount.2.1]
      exact hbefore b hb
    · show ks.count b.1 ≤ ks.count e.1
      rw [← hcount.2.2 b hb, ← hcount.2.1]
      exact hafter b hb

end Table

end KnowledgeGraph
