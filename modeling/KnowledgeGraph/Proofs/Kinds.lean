import KnowledgeGraph.Proofs.Sorting
import Mathlib.Algebra.GroupWithZero.Nat

/-!
# Kinds

A function sorts the members of a list into kinds. Of each kind there is a first member (`firsts`),
and a table that is filled under keys that tell kinds apart has one entry for each of them, with what
the members of the kind come to (`foldl_alter`): this is how groups are made (`foldl_addTo`), how
kinds are counted (`tally_map`, `total_tally`), and how first members are kept (`foldl_putNew`). A
list of distinct keys is of this sort as well (`distinct_eq_eraseDups`).
-/

namespace KnowledgeGraph

variable {α μ : Type} [DecidableEq μ] {kind : α → μ}

/-! ## The first of each kind -/

/-- The members of a list that are the first of their kind, in order. -/
def firsts (kind : α → μ) (as : List α) : List α :=
  as.foldl (fun known a => if kind a ∈ known.map kind then known else known ++ [a]) []

theorem map_firsts (kind : α → μ) (as : List α) : (firsts kind as).map kind = (as.map kind).eraseDups := by
  induction as using List.reverseRecOn with
  | nil => rfl
  | append_singleton as a ih =>
    unfold firsts at ih ⊢
    rw [List.foldl_append, List.map_append, List.map_singleton, Table.eraseDups_append_singleton]
    simp only [← List.mem_eraseDups (l := as.map kind), ← ih, List.foldl_cons, List.foldl_nil]
    split
    · rfl
    · exact List.map_append

theorem mem_map_firsts {as : List α} {m : μ} : m ∈ (firsts kind as).map kind ↔ m ∈ as.map kind := by
  rw [map_firsts, List.mem_eraseDups]

/-- One more member is the first of its kind or makes no difference. -/
theorem firsts_concat (as : List α) (a : α) : firsts kind (as ++ [a]) =
    if kind a ∈ as.map kind then firsts kind as else firsts kind as ++ [a] := by
  have hstep : firsts kind (as ++ [a]) =
      if kind a ∈ (firsts kind as).map kind then firsts kind as else firsts kind as ++ [a] :=
    List.foldl_append
  rw [hstep]
  simp only [mem_map_firsts]

theorem nodup_map_firsts (kind : α → μ) (as : List α) :
    ((firsts kind as).map kind).Nodup :=
  map_firsts kind as ▸ nodup_eraseDups _

/-- The first of a kind is there, with no member of its kind before it. -/
theorem exists_of_mem_firsts {as : List α} {a : α} (h : a ∈ firsts kind as) :
    ∃ before after, as = before ++ a :: after ∧ kind a ∉ before.map kind := by
  induction as using List.reverseRecOn with
  | nil => cases h
  | append_singleton as b ih =>
    have hold (ha : a ∈ firsts kind as) :
        ∃ before after, as ++ [b] = before ++ a :: after ∧ kind a ∉ before.map kind := by
      obtain ⟨before, after, rfl, hnew⟩ := ih ha
      exact ⟨before, after ++ [b], List.append_assoc .., hnew⟩
    rw [firsts_concat] at h
    split at h
    · exact hold h
    · rename_i hnew
      obtain h | h := List.mem_append.1 h
      · exact hold h
      · obtain rfl := List.mem_singleton.1 h
        exact ⟨as, [], rfl, hnew⟩

theorem mem_of_mem_firsts {as : List α} {a : α} (h : a ∈ firsts kind as) : a ∈ as := by
  obtain ⟨before, after, rfl, -⟩ := exists_of_mem_firsts h
  exact List.mem_append_right _ List.mem_cons_self

namespace Table

variable {κ ν : Type} [Key κ] {key : α → κ}

/-- Among the members of a list, keys are the same exactly for those of one kind. -/
def Tells (key : α → κ) (kind : α → μ) (as : List α) : Prop :=
  ∀ a ∈ as, ∀ b ∈ as, Key.same (key a) (key b) = true ↔ kind a = kind b

omit [DecidableEq μ] in
theorem Tells.left {as bs : List α} (h : Tells key kind (as ++ bs)) : Tells key kind as :=
  fun a ha b hb => h a (List.mem_append_left _ ha) b (List.mem_append_left _ hb)

section

variable {as fs : List α} {a : α} (htells : Tells key kind as) (hsubset : ∀ b ∈ fs, b ∈ as)
  (ha : a ∈ as) (content : α → ν)
include htells hsubset ha

theorem has_map : has (fs.map fun b => (key b, content b)) (key a) = decide (kind a ∈ fs.map kind) := by
  rw [Bool.eq_iff_iff, decide_eq_true_iff]
  unfold has
  simp only [List.any_map, List.any_eq_true, Function.comp_apply, List.mem_map]
  exact exists_congr fun b => and_congr_right fun hb => htells b (hsubset b hb) a ha

variable (hnodup : (fs.map kind).Nodup)
include hnodup

omit [DecidableEq μ] in
/-- What is found under a key is that of the kind. -/
theorem lookup?_map {b : α} (hb : b ∈ fs) (hkind : kind b = kind a) :
    lookup? (fs.map fun b => (key b, content b)) (key a) = some (content b) := by
  induction fs with
  | nil => cases hb
  | cons c fs ih =>
    have htell := htells c (hsubset c List.mem_cons_self) a ha
    rw [List.map_cons, List.nodup_cons] at hnodup
    rw [List.map_cons, lookup?_cons]
    obtain rfl | hb := List.mem_cons.1 hb
    · rw [if_pos (htell.2 hkind)]
    · have hne : ¬ kind c = kind a := fun heq =>
        hnodup.1 (heq ▸ hkind ▸ List.mem_map_of_mem hb)
      rw [if_neg (mt htell.1 hne)]
      exact ih (fun b hb => hsubset b (List.mem_cons_of_mem c hb)) hnodup.2 hb

theorem put_map (hmem : kind a ∈ fs.map kind) (v : ν) :
    put (fs.map fun b => (key b, content b)) (key a) v =
      fs.map fun b => (key b, if kind b = kind a then v else content b) := by
  induction fs with
  | nil => cases hmem
  | cons c fs ih =>
    have htell := htells c (hsubset c List.mem_cons_self) a ha
    rw [List.map_cons, List.nodup_cons] at hnodup
    rw [List.map_cons, List.map_cons, put_cons]
    by_cases hkind : kind c = kind a
    · rw [if_pos (htell.2 hkind), if_pos hkind]
      refine congrArg ((key c, v) :: ·) (List.map_congr_left fun b hb => ?_)
      have hne : ¬ kind b = kind a := fun heq =>
        hnodup.1 (hkind.trans heq.symm ▸ List.mem_map_of_mem hb)
      rw [if_neg hne]
    · rw [if_neg (mt htell.1 hkind), if_neg hkind]
      refine congrArg ((key c, content c) :: ·) (ih (fun b hb => ?_) hnodup.2 ?_)
      · exact hsubset b (List.mem_cons_of_mem c hb)
      · exact (List.mem_cons.1 hmem).resolve_left (Ne.symm hkind)

end

variable {as : List α} (htells : Tells key kind as)
include htells

/-- What is made of the members one by one, each under its key, is for each kind what is made of the
members of the kind. -/
theorem foldl_alter (start : ν) (f : α → ν → ν) :
    as.foldl (fun t a => alter t (key a) start (f a)) [] = (firsts kind as).map fun a =>
      (key a, (as.filter (kind · = kind a)).foldl (fun v b => f b v) start) := by
  induction as using List.reverseRecOn with
  | nil => rfl
  | append_singleton as a ih =>
    have hlast : a ∈ as ++ [a] := List.mem_append_right _ List.mem_cons_self
    have hsubset : ∀ b ∈ firsts kind as, b ∈ as ++ [a] := fun b hb =>
      List.mem_append_left _ (mem_of_mem_firsts hb)
    -- The members of each kind are those before, and the last one.
    have hfilter (m : μ) : (as ++ [a]).filter (kind · = m) =
        as.filter (kind · = m) ++ if kind a = m then [a] else [] := by
      rw [List.filter_append, List.filter_singleton]
      by_cases h : kind a = m <;> simp [h]
    rw [List.foldl_append, List.foldl_cons, List.foldl_nil, ih htells.left, firsts_concat]
    unfold alter
    by_cases hmem : kind a ∈ as.map kind
    · obtain ⟨b, hb, hkind⟩ := List.mem_map.1 (mem_map_firsts.2 hmem)
      rw [lookup?_map htells hsubset hlast _ (nodup_map_firsts kind as) hb hkind, hkind,
        Option.getD_some, if_pos hmem, put_map htells hsubset hlast _ (nodup_map_firsts kind as)
        (mem_map_firsts.2 hmem)]
      refine List.map_congr_left fun c _ => congrArg (key c, ·) ?_
      rw [hfilter, List.foldl_append]
      by_cases hc : kind c = kind a
      · rw [if_pos hc, if_pos hc.symm, hc]
        rfl
      · rw [if_neg hc, if_neg (Ne.symm hc)]
        rfl
    · have hnew : kind a ∉ (firsts kind as).map kind := mt mem_map_firsts.1 hmem
      have hnone : as.filter (kind · = kind a) = [] := by
        simpa [List.filter_eq_nil_iff] using hmem
      have hhas (content : α → ν) :
          has ((firsts kind as).map fun b => (key b, content b)) (key a) = false := by
        rw [has_map htells hsubset hlast, decide_eq_false hnew]
      have hfound (content : α → ν) :
          lookup? ((firsts kind as).map fun b => (key b, content b)) (key a) = none := by
        rw [← Option.not_isSome_iff_eq_none, ← has_eq_isSome, hhas]
        exact Bool.false_ne_true
      rw [put_of_has_eq_false (hhas _), hfound, if_neg hmem, List.map_append, List.map_singleton, hfilter, hnone, if_pos rfl]
      refine congrArg (· ++ _) (List.map_congr_left fun c hc => congrArg (key c, ·) ?_)
      have hne : ¬ kind a = kind c := fun heq => hnew (heq ▸ List.mem_map_of_mem hc)
      rw [hfilter, if_neg hne, List.append_nil]

theorem foldl_putNew : as.foldl (fun t a => putNew t (key a) a) [] =
    (firsts kind as).map fun a => (key a, a) := by
  induction as using List.reverseRecOn with
  | nil => rfl
  | append_singleton as a ih =>
    have hlast : a ∈ as ++ [a] := List.mem_append_right _ List.mem_cons_self
    have hsubset : ∀ b ∈ firsts kind as, b ∈ as ++ [a] := fun b hb =>
      List.mem_append_left _ (mem_of_mem_firsts hb)
    rw [List.foldl_append, List.foldl_cons, List.foldl_nil, ih htells.left, firsts_concat]
    unfold putNew
    simp only [has_map htells hsubset hlast, decide_eq_true_eq, mem_map_firsts]
    split
    · rfl
    · rw [List.map_append]
      rfl

theorem foldl_addTo : as.foldl (fun t a => addTo t (key a) a) [] =
    (firsts kind as).map fun a => (key a, as.filter (kind · = kind a)) := by
  have hgroup (bs : List α) : bs.foldl (fun v b => v ++ [b]) [] = bs := by
    induction bs using List.reverseRecOn with
    | nil => rfl
    | append_singleton bs b ih => rw [List.foldl_append, ih, List.foldl_cons, List.foldl_nil]
  refine (foldl_alter htells [] fun a v => v ++ [a]).trans ?_
  exact List.map_congr_left fun a _ => by rw [hgroup]

theorem tally_map : tally (as.map key) =
    (firsts kind as).map fun a => (key a, (as.filter (kind · = kind a)).length) := by
  have hcount (bs : List α) : bs.foldl (fun n _ => n + 1) 0 = bs.length := by
    induction bs using List.reverseRecOn with
    | nil => rfl
    | append_singleton bs b ih => rw [List.foldl_append, ih, List.length_append]; rfl
  unfold tally
  rw [List.foldl_map]
  refine (foldl_alter htells 0 fun _ n => n + 1).trans ?_
  exact List.map_congr_left fun a _ => by rw [hcount]

omit htells [DecidableEq μ] [Key κ] in
/-- Entries are ranked like what they stand for. -/
theorem exists_byCount_map (key : α → κ) (fs : List α) (number : α → ℕ) : ∃ ranked, IsFalling number fs ranked ∧
    byCount (fs.map fun a => (key a, number a)) = ranked.map fun a => (key a, number a) := by
  refine ⟨fs.mergeSort fun a b => number b ≤ number a, isFalling_mergeSort fun _ _ _ _ => rfl, ?_⟩
  exact (List.map_mergeSort (f := fun a => (key a, number a)) fun _ _ _ _ => rfl).symm

end Table

theorem distinct_eq_eraseDups {κ : Type} [Key κ] [DecidableEq κ] {ks : List κ}
    (hsharp : ∀ k ∈ ks, Key.Sharp k) : distinct ks = ks.eraseDups := by
  induction ks using List.reverseRecOn with
  | nil => rfl
  | append_singleton ks k ih =>
    rw [List.forall_mem_append, List.forall_mem_singleton] at hsharp
    have hmem : (ks.eraseDups.any (Key.same · k)) = true ↔ k ∈ ks := by
      simp [List.any_eq_true, hsharp.2 _]
    rw [distinct_concat, ih hsharp.1, Table.eraseDups_append_singleton]
    simp only [hmem]

/-! ## Several of a kind -/

/-- The numbers of members of different kinds add up to the number of all these members. -/
theorem sum_length_filter {fs : List α} (hnodup : (fs.map kind).Nodup) (as : List α) :
    (fs.map fun a => (as.filter (kind · = kind a)).length).sum =
      (as.filter (kind · ∈ fs.map kind)).length := by
  induction fs with
  | nil => simp
  | cons a fs ih =>
    rw [List.map_cons, List.nodup_cons] at hnodup
    have hown : (as.filter (kind · ∈ kind a :: fs.map kind)).filter (kind · = kind a) =
        as.filter (kind · = kind a) := by
      rw [List.filter_filter]
      exact List.filter_congr fun b _ => by by_cases h : kind b = kind a <;> simp [h]
    have hother : (as.filter (kind · ∈ kind a :: fs.map kind)).filter
        (fun b => !decide (kind b = kind a)) = as.filter (kind · ∈ fs.map kind) := by
      rw [List.filter_filter]
      refine List.filter_congr fun b _ => ?_
      by_cases h : kind b = kind a
      · simp [h, hnodup.1]
      · simp [h]
    have hboth := (as.filter (kind · ∈ kind a :: fs.map kind)).length_eq_length_filter_add
      (kind · = kind a)
    rw [hown, hother] at hboth
    rw [List.map_cons, List.sum_cons, ih hnodup.2, List.map_cons, hboth]

theorem total_eq_sum (ns : List ℕ) : Table.total ns = ns.sum := by
  induction ns with
  | nil => rfl
  | cons n ns ih => rw [Table.total, List.sum_cons, ih]

theorem Table.total_tally {κ : Type} [Key κ] [DecidableEq κ] {ks : List κ}
    (hsharp : ∀ k ∈ ks, Key.Sharp k) : total (values (tally ks)) = ks.length := by
  have htells : Tells id id ks := fun k _ k' hk' => hsharp k' hk' k
  have hall : ks.filter (id · ∈ (firsts id ks).map id) = ks :=
    List.filter_eq_self.2 fun k hk => decide_eq_true (mem_map_firsts.2 (List.mem_map_of_mem hk))
  have hsum := sum_length_filter (nodup_map_firsts id ks) ks
  have htally := tally_map htells
  rw [List.map_id] at htally
  unfold values
  rw [total_eq_sum, htally, List.map_map]
  exact hsum.trans (congrArg List.length hall)

theorem two_le_length_filter {p : α → Bool} {as : List α} :
    2 ≤ (as.filter p).length ↔ ∃ a b, [a, b].Sublist as ∧ p a = true ∧ p b = true := by
  constructor
  · intro h
    obtain ⟨a, b, rest, hfilter⟩ : ∃ a b rest, as.filter p = a :: b :: rest := by
      match as.filter p, h with
      | a :: b :: rest, _ => exact ⟨a, b, rest, rfl⟩
    have hsublist : [a, b].Sublist (as.filter p) := by simp [hfilter]
    have hmem : ∀ c ∈ [a, b], p c = true := fun c hc => (List.mem_filter.1 (hsublist.subset hc)).2
    exact ⟨a, b, hsublist.trans List.filter_sublist, hmem a (by simp), hmem b (by simp)⟩
  · rintro ⟨a, b, hsublist, ha, hb⟩
    simpa [ha, hb] using (hsublist.filter p).length_le

end KnowledgeGraph
