import KnowledgeGraph.Sorting
import KnowledgeGraph.Proofs.Number.Order
import KnowledgeGraph.Proofs.Table
import Mathlib.Data.List.Sort

/-!
# Sorting by falling numbers

A list by falling numbers has the members of another one, of which those with the same number stay
in their order (`IsFalling`). This is what merging makes (`isFalling_mergeSort`), with floats as long
as there is no not-a-number (`isFalling_less`). An order that the members have among themselves is
left where numbers are the same (`IsFalling.pairwise`), also where only the first few are wanted
(`isTop_take`).
-/

namespace KnowledgeGraph

variable {α : Type}

/-! ## Falling numbers -/

/-- The members of a list by falling numbers, those of one number in their order. -/
structure IsFalling {L : Type} [LinearOrder L] (number : α → L) (as ranked : List α) : Prop where
  perm : ranked.Perm as
  falling : ranked.Pairwise fun a b => number b ≤ number a
  stable : ∀ l, ranked.filter (number · = l) = as.filter (number · = l)

section

variable {L : Type} [LinearOrder L] {number : α → L} {as ranked : List α}

theorem isFalling_mergeSort {le : α → α → Bool}
    (hle : ∀ a ∈ as, ∀ b ∈ as, le a b = decide (number b ≤ number a)) :
    IsFalling number as (as.mergeSort le) := by
  let above : α → α → Bool := fun a b => decide (number b ≤ number a)
  have htrans : ∀ a b c, above a b = true → above b c = true → above a c = true := by
    intro a b c hab hbc
    exact decide_eq_true ((of_decide_eq_true hbc).trans (of_decide_eq_true hab))
  have htotal : ∀ a b, (above a b || above b a) = true := by
    intro a b
    rw [Bool.or_eq_true, decide_eq_true_iff, decide_eq_true_iff]
    exact le_total _ _
  have hsort : as.mergeSort le = as.mergeSort above := by
    have hmap := List.map_mergeSort (r := le) (s := above) (f := id) (l := as) hle
    rwa [List.map_id, List.map_id] at hmap
  have hperm : (as.mergeSort above).Perm as := List.mergeSort_perm _ _
  rw [hsort]
  refine ⟨hperm, ?_, fun l => ?_⟩
  · exact (List.pairwise_mergeSort htrans htotal as).imp of_decide_eq_true
  · have hsame : (as.filter (number · = l)).Pairwise fun a b => above a b = true := by
      refine List.pairwise_of_forall_mem_list fun a ha b hb => decide_eq_true (le_of_eq ?_)
      exact (of_decide_eq_true (List.mem_filter.1 hb).2).trans
        (of_decide_eq_true (List.mem_filter.1 ha).2).symm
    have hsublist : (as.filter (number · = l)).Sublist (as.mergeSort above) :=
      List.sublist_mergeSort htrans htotal hsame List.filter_sublist
    have hfilter := hsublist.filter (number · = l)
    rw [List.filter_filter] at hfilter
    simp only [Bool.and_self] at hfilter
    exact (hfilter.eq_of_length (hperm.filter _).length_eq.symm).symm

/-- Of two members in a row the second one has a smaller number, or else the same number and the
place after the first one. -/
theorem IsFalling.pairwise (h : IsFalling number as ranked) {before : α → α → Prop}
    (has : as.Pairwise before) :
    ranked.Pairwise fun a b => number b < number a ∨ number a = number b ∧ before a b := by
  rw [List.pairwise_iff_forall_sublist]
  intro a b hsublist
  obtain hlt | heq := lt_or_eq_of_le (List.pairwise_iff_forall_sublist.1 h.falling hsublist)
  · exact .inl hlt
  · -- Both are among the members of one number, which have kept their order.
    have hfilter := hsublist.filter (number · = number a)
    rw [h.stable, List.filter_eq_self.2 (by simp [heq])] at hfilter
    exact .inr ⟨heq.symm,
      List.pairwise_iff_forall_sublist.1 has (hfilter.trans List.filter_sublist)⟩

end

/-! ## Floats -/

section

variable {number : α → Float} {as ranked : List α}

/-- Merging by a comparison of floats, of which none is the not-a-number. -/
theorem isFalling_less (h : ∀ a ∈ as, (number a).isNaN = false) :
    IsFalling (fun a => rank (number a)) as (as.mergeSort fun a b => !(number a < number b)) := by
  refine isFalling_mergeSort fun a ha b hb => ?_
  rw [← decide_not, decide_eq_decide, lt_iff_rank (h a ha) (h b hb), not_lt]

/-- Without the not-a-number, to list by falling numbers is to merge. -/
theorem isFalling_byFalling (h : ∀ a ∈ as, (number a).isNaN = false) :
    IsFalling (fun a => rank (number a)) as (byFalling number as) := by
  have hany : (as.any fun a => (number a).isNaN) = false := by
    rw [List.any_eq_false]
    exact fun a ha => Bool.eq_false_iff.1 (h a ha)
  unfold byFalling
  rw [hany]
  exact isFalling_less h

theorem IsFalling.pairwise_float (hfalling : IsFalling (fun a => rank (number a)) as ranked)
    (h : ∀ a ∈ as, (number a).isNaN = false) {before : α → α → Prop} (has : as.Pairwise before) :
    ranked.Pairwise fun a b =>
      number b < number a ∨ (number a == number b) = true ∧ before a b := by
  refine (hfalling.pairwise has).imp_of_mem fun {a b} ha hb hab => ?_
  have ha : (number a).isNaN = false := h a (hfalling.perm.mem_iff.1 ha)
  have hb : (number b).isNaN = false := h b (hfalling.perm.mem_iff.1 hb)
  rwa [lt_iff_rank hb ha, beq_iff_rank ha hb]

/-- The first few of a list by falling numbers: no member that is left out has a greater number, and
of those with the same number the one that stands before the other comes first. -/
structure IsTop (number : α → Float) (before : α → α → Prop) (count : Nat) (as top : List α) :
    Prop where
  rest : ∃ rest, (top ++ rest).Perm as ∧ ∀ a ∈ rest, ∀ b ∈ top, number a ≤ number b
  length : top.length = min count as.length
  falling : top.Pairwise fun a b =>
    number b < number a ∨ (number a == number b) = true ∧ before a b

/-- Without the not-a-number, the list is cut off after it is sorted. -/
theorem isTop_take (h : ∀ a ∈ as, (number a).isNaN = false) {before : α → α → Prop}
    (has : as.Pairwise before) (count : Nat) :
    IsTop number before count as ((byFalling number as).take count) := by
  have hsort := isFalling_byFalling h
  have hnan : ∀ a ∈ byFalling number as, (number a).isNaN = false := fun a ha =>
    h a (hsort.perm.mem_iff.1 ha)
  have hall := List.take_append_drop count (byFalling number as)
  have hcut := hsort.falling
  rw [← hall] at hcut
  refine ⟨⟨(byFalling number as).drop count, ?_, fun a ha b hb => ?_⟩, ?_, ?_⟩
  · rw [hall]
    exact hsort.perm
  · have hle : rank (number a) ≤ rank (number b) := (List.pairwise_append.1 hcut).2.2 b hb a ha
    exact (le_iff_rank (hnan a (List.mem_of_mem_drop ha)) (hnan b (List.mem_of_mem_take hb))).2 hle
  · rw [List.length_take, hsort.perm.length_eq]
  · exact (hsort.pairwise_float h has).sublist (List.take_sublist _ _)

end

/-! ## First occurrences -/

theorem pairwise_idxOf_eraseDups [DecidableEq α] (as : List α) :
    as.eraseDups.Pairwise fun a b => as.idxOf a < as.idxOf b := by
  induction as using List.reverseRecOn with
  | nil => exact .nil
  | append_singleton as last ih =>
    have hold : as.eraseDups.Pairwise fun a b =>
        (as ++ [last]).idxOf a < (as ++ [last]).idxOf b := by
      refine ih.imp_of_mem fun {a b} ha hb hab => ?_
      rwa [List.idxOf_append_of_mem (List.mem_eraseDups.1 ha),
        List.idxOf_append_of_mem (List.mem_eraseDups.1 hb)]
    rw [Table.eraseDups_append_singleton]
    split
    · exact hold
    · rename_i hlast
      refine List.pairwise_append.2 ⟨hold, List.pairwise_singleton _ _, fun a ha b hb => ?_⟩
      obtain rfl := List.mem_singleton.1 hb
      rw [List.mem_eraseDups] at ha
      rw [List.idxOf_append_of_mem ha, List.idxOf_append_of_notMem hlast]
      exact (List.idxOf_lt_length_of_mem ha).trans_le (Nat.le_add_right _ _)

theorem nodup_eraseDups [DecidableEq α] (as : List α) : as.eraseDups.Nodup :=
  (pairwise_idxOf_eraseDups as).imp fun hab heq => (heq ▸ hab).false

end KnowledgeGraph
