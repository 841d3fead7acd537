import KnowledgeGraph.Text.Regex
import Mathlib.Data.List.Basic

/-!
# Matches of expressions

What an expression may take at a place is told by `Takes`. A match takes such a part of the text
(`matchThen_eq_some`), and where there is none the expression takes nothing (`Takes.matchThen_eq_none`).
It depends on what precedes the place only as far as that is a word character or not
(`matchThen_congr`). A search goes through the text: at each place it passes over one character or finds
a match and goes on behind it (`Search`, `search_findFrom`). So the matches stand at their places in the
text and do not overlap (`Search.placed`, `Search.pairwise`), and characters in front of a text that are
no word characters and that no match begins with only move the matches (`findAll_append`).
-/

namespace KnowledgeGraph.Text.Regex

variable {β : Type} {r s : Regex} {p : Char → Bool} {before before' : Option Char} {offset : ℕ}
  {cs taken rest : List Char} {c : Char} {ms : List Match}

/-! ## Places -/

/-- The character before a place once some characters are passed. -/
def behind (before : Option Char) (passed : List Char) : Option Char := passed.getLast?.or before

theorem behind_cons (before : Option Char) (c : Char) (cs : List Char) :
    behind before (c :: cs) = behind (some c) cs := by
  unfold behind
  rw [List.getLast?_cons]
  cases cs.getLast? <;> rfl

theorem behind_append (before : Option Char) (cs ds : List Char) :
    behind before (cs ++ ds) = behind (behind before cs) ds := by
  unfold behind
  rw [List.getLast?_append, Option.or_assoc]

/-! ## What is taken -/

/-- At a place, told by the character before, an expression takes some characters of which the rest of
the text follows. -/
inductive Takes : Regex → Option Char → List Char → List Char → Prop
  | empty {before : Option Char} {rest : List Char} : Takes empty before [] rest
  | one {p : Char → Bool} {before : Option Char} {c : Char} {rest : List Char} (h : p c = true) :
    Takes (one p) before [c] rest
  | many {p : Char → Bool} {before : Option Char} {taken rest : List Char}
    (h : ∀ c ∈ taken, p c = true) : Takes (many p) before taken rest
  | seq {r s : Regex} {before : Option Char} {first second rest : List Char}
    (hr : Takes r before first (second ++ rest)) (hs : Takes s (behind before first) second rest) :
    Takes (seq r s) before (first ++ second) rest
  | left {r s : Regex} {before : Option Char} {taken rest : List Char}
    (h : Takes r before taken rest) : Takes (alt r s) before taken rest
  | right {r s : Regex} {before : Option Char} {taken rest : List Char}
    (h : Takes s before taken rest) : Takes (alt r s) before taken rest
  | boundary {before : Option Char} {rest : List Char}
    (h : (wordAt before != wordAt rest.head?) = true) : Takes boundary before [] rest
  | notAhead {p : Char → Bool} {before : Option Char} {rest : List Char}
    (h : rest.head?.any p = false) : Takes (notAhead p) before [] rest

section

variable {b : β} {k : Option Char → List Char → Option β}

/-- If there is nothing to be found behind a run of characters, there is nothing behind any part of
it. -/
theorem manyThen_eq_none (htaken : ∀ c ∈ taken, p c = true)
    (h : manyThen p before (taken ++ rest) k = none) : k (behind before taken) rest = none := by
  induction taken generalizing before with
  | nil =>
    cases rest with
    | nil => exact h
    | cons c rest =>
      rw [List.nil_append] at h
      unfold manyThen at h
      split at h
      · split at h
        · cases h
        · exact h
      · exact h
  | cons c taken ih =>
    rw [List.forall_mem_cons] at htaken
    rw [List.cons_append] at h
    unfold manyThen at h
    rw [if_pos htaken.1] at h
    rw [behind_cons]
    split at h
    · cases h
    · rename_i hnone
      exact ih htaken.2 hnone

/-- A run of characters is taken as far as something is found behind it: behind one more there is
nothing. -/
theorem manyThen_eq_some (h : manyThen p before cs k = some b) : ∃ taken rest, cs = taken ++ rest ∧
    (∀ c ∈ taken, p c = true) ∧ k (behind before taken) rest = some b ∧
    ∀ c rest', rest = c :: rest' → p c = true → k (some c) rest' = none := by
  induction cs generalizing before with
  | nil => exact ⟨[], [], rfl, nofun, h, nofun⟩
  | cons c cs ih =>
    unfold manyThen at h
    split at h
    · rename_i hc
      split at h
      · rename_i found hfound
        cases h
        obtain ⟨taken, rest, rfl, htaken, hrest, hend⟩ := ih hfound
        exact ⟨c :: taken, rest, rfl, List.forall_mem_cons.2 ⟨hc, htaken⟩, by rwa [behind_cons], hend⟩
      · rename_i hnone
        have hstop : k (behind (some c) []) cs = none := manyThen_eq_none nofun hnone
        refine ⟨[], c :: cs, rfl, nofun, h, ?_⟩
        rintro _ _ ⟨⟩ -
        exact hstop
    · rename_i hc
      refine ⟨[], c :: cs, rfl, nofun, h, ?_⟩
      rintro _ _ ⟨⟩ hc'
      exact absurd hc' hc

/-- **Matches.** What is found is found behind characters that the expression takes. -/
theorem matchThen_eq_some (h : matchThen r before cs k = some b) : ∃ taken rest, cs = taken ++ rest ∧
    r.Takes before taken rest ∧ k (behind before taken) rest = some b := by
  induction r generalizing before cs k with
  | empty => exact ⟨[], cs, rfl, .empty, h⟩
  | one p =>
    cases cs with
    | nil => cases h
    | cons c cs =>
      simp only [matchThen] at h
      split at h
      · rename_i hc
        exact ⟨[c], cs, rfl, .one hc, h⟩
      · cases h
  | many p =>
    obtain ⟨taken, rest, hsplit, htaken, hrest, -⟩ := manyThen_eq_some h
    exact ⟨taken, rest, hsplit, .many htaken, hrest⟩
  | seq r s ihr ihs =>
    obtain ⟨first, cs', rfl, hfirst, h⟩ := ihr h
    obtain ⟨second, rest, rfl, hsecond, h⟩ := ihs h
    exact ⟨first ++ second, rest, (List.append_assoc ..).symm, .seq hfirst hsecond,
      by rwa [behind_append]⟩
  | alt r s ihr ihs =>
    unfold matchThen at h
    split at h
    · rename_i hfound
      cases h
      obtain ⟨taken, rest, hsplit, htaken, h⟩ := ihr hfound
      exact ⟨taken, rest, hsplit, .left htaken, h⟩
    · obtain ⟨taken, rest, hsplit, htaken, h⟩ := ihs h
      exact ⟨taken, rest, hsplit, .right htaken, h⟩
  | boundary =>
    unfold matchThen at h
    split at h
    · rename_i hboundary
      exact ⟨[], cs, rfl, .boundary hboundary, h⟩
    · cases h
  | notAhead p =>
    unfold matchThen at h
    split at h
    · cases h
    · rename_i hahead
      exact ⟨[], cs, rfl, .notAhead (Bool.not_eq_true _ ▸ hahead), h⟩

/-- If a match finds nothing, there is nothing to be found behind any characters that the expression
takes. -/
theorem Takes.matchThen_eq_none (htakes : r.Takes before taken rest)
    (h : matchThen r before (taken ++ rest) k = none) : k (behind before taken) rest = none := by
  induction htakes generalizing k with
  | empty => exact h
  | one hc => exact (if_pos hc).symm.trans h
  | many htaken => exact manyThen_eq_none htaken h
  | seq _ _ ihr ihs =>
    rw [List.append_assoc] at h
    rw [behind_append]
    exact ihs (ihr h)
  | left _ ih =>
    unfold matchThen at h
    split at h
    · cases h
    · rename_i hnone
      exact ih hnone
  | right _ ih =>
    unfold matchThen at h
    split at h
    · cases h
    · exact ih h
  | boundary hboundary => exact (if_pos hboundary).symm.trans h
  | notAhead hahead => exact (if_neg (Bool.not_eq_true _ ▸ hahead)).symm.trans h

end

/-- A match at a place takes what the expression takes. -/
theorem rest?_eq_some (h : r.rest? before cs = some rest) :
    ∃ taken, cs = taken ++ rest ∧ r.Takes before taken rest := by
  obtain ⟨taken, rest', rfl, htakes, hrest⟩ := matchThen_eq_some h
  cases hrest
  exact ⟨taken, rfl, htakes⟩

theorem Takes.exists_rest? (h : r.Takes before taken rest) :
    ∃ rest', r.rest? before (taken ++ rest) = some rest' := by
  cases hrest : r.rest? before (taken ++ rest) with
  | some rest' => exact ⟨rest', rfl⟩
  | none => exact absurd (h.matchThen_eq_none hrest) (Option.some_ne_none rest)

theorem rest?_alt (r s : Regex) (before : Option Char) (cs : List Char) :
    (alt r s).rest? before cs = (r.rest? before cs).or (s.rest? before cs) := by
  unfold rest?
  rw [matchThen]
  cases matchThen r before cs fun _ rest => some rest <;> rfl

theorem rest?_seq (h : (seq r s).rest? before cs = some rest) : ∃ taken cs', cs = taken ++ cs' ∧
    r.Takes before taken cs' ∧ s.rest? (behind before taken) cs' = some rest := matchThen_eq_some h

/-- At the end of an expression a run of characters is taken as a whole. -/
theorem rest?_many (h : (many p).rest? before cs = some rest) :
    ∃ taken, cs = taken ++ rest ∧ (∀ c ∈ taken, p c = true) ∧ rest.head?.any p = false := by
  obtain ⟨taken, rest', rfl, htaken, hrest, hend⟩ := manyThen_eq_some h
  cases hrest
  refine ⟨taken, rfl, htaken, ?_⟩
  cases rest with
  | nil => rfl
  | cons c rest =>
    by_contra hc
    exact Option.some_ne_none _ (hend c rest rfl (Bool.not_eq_false _ ▸ hc))

theorem rest?_atLeastOne (h : (atLeastOne p).rest? before cs = some rest) :
    ∃ taken, cs = taken ++ rest ∧ taken ≠ [] ∧ (∀ c ∈ taken, p c = true) ∧
      rest.head?.any p = false := by
  obtain ⟨_, _, rfl, hone, h⟩ := rest?_seq h
  obtain ⟨taken, rfl, htaken, hend⟩ := rest?_many h
  cases hone with
  | one hc => exact ⟨_ :: taken, rfl, List.cons_ne_nil _ _, List.forall_mem_cons.2 ⟨hc, htaken⟩, hend⟩

/-- A run of characters that a look-ahead ends is taken as far as the look-ahead holds. -/
theorem rest?_atLeastOne_notAhead {q : Char → Bool}
    (h : (seq (atLeastOne p) (notAhead q)).rest? before cs = some rest) :
    ∃ taken, cs = taken ++ rest ∧ taken ≠ [] ∧ (∀ c ∈ taken, p c = true) ∧
      rest.head?.any q = false ∧
      ∀ c rest', rest = c :: rest' → p c = true → rest'.head?.any q = true := by
  have hmatch : matchThen (one p) before cs (fun before cs => manyThen p before cs fun before cs =>
      matchThen (notAhead q) before cs fun _ rest => some rest) = some rest := h
  obtain ⟨_, _, rfl, hone, hrun⟩ := matchThen_eq_some hmatch
  obtain ⟨taken, rest', rfl, htaken, hrest, hend⟩ := manyThen_eq_some hrun
  cases hone with
  | @one _ _ c _ hc =>
    unfold matchThen at hrest hend
    split at hrest
    · cases hrest
    · rename_i hahead
      cases hrest
      refine ⟨c :: taken, rfl, List.cons_ne_nil c taken, List.forall_mem_cons.2 ⟨hc, htaken⟩,
        Bool.not_eq_true _ ▸ hahead, fun d rest' hrest hd => ?_⟩
      by_contra hnot
      exact absurd (hend d rest' hrest hd) (by rw [if_neg hnot]; exact Option.some_ne_none _)

section

variable {b : β} {k : Option Char → List Char → Option β}

/-! ## What precedes a place -/

variable {k' : Option Char → List Char → Option β}
  (hk : ∀ cs before before', wordAt before = wordAt before' → k before cs = k' before' cs)
include hk

theorem manyThen_congr (hbefore : wordAt before = wordAt before') :
    manyThen p before cs k = manyThen p before' cs k' := by
  induction cs generalizing before before' with
  | nil => exact hk _ _ _ hbefore
  | cons c cs ih =>
    have hrest : manyThen p (some c) cs k = manyThen p (some c) cs k' := ih rfl
    unfold manyThen
    rw [hrest, hk _ _ _ hbefore]

/-- A match depends on what precedes the place only as far as that is a word character or not. -/
theorem matchThen_congr (hbefore : wordAt before = wordAt before') :
    matchThen r before cs k = matchThen r before' cs k' := by
  induction r generalizing before before' cs k k' with
  | empty => exact hk _ _ _ hbefore
  | one p =>
    unfold matchThen
    cases cs with
    | nil => rfl
    | cons c cs => dsimp only; rw [hk cs _ _ rfl]
  | many p => exact manyThen_congr hk hbefore
  | seq r s ihr ihs =>
    unfold matchThen
    exact ihr (fun cs _ _ h => ihs hk h) hbefore
  | alt r s ihr ihs =>
    unfold matchThen
    rw [ihr hk hbefore, ihs hk hbefore]
  | boundary =>
    unfold matchThen
    rw [hbefore, hk _ _ _ hbefore]
  | notAhead p =>
    unfold matchThen
    rw [hk _ _ _ hbefore]

end

theorem rest?_congr (hbefore : wordAt before = wordAt before') :
    r.rest? before cs = r.rest? before' cs :=
  matchThen_congr (fun _ _ _ _ => rfl) hbefore

/-! ## How a match begins -/

/-- Every match takes a character, and the first one that it takes is of a class. -/
def Opens (r : Regex) (p : Char → Bool) : Prop :=
  ∀ {β : Type} {before : Option Char} {cs : List Char} {k : Option Char → List Char → Option β}
    {b : β}, matchThen r before cs k = some b → cs.head?.any p = true

theorem opens_one {q : Char → Bool} (h : ∀ c, q c = true → p c = true) : (one q).Opens p := by
  intro β before cs k b hmatch
  cases cs with
  | nil => cases hmatch
  | cons c cs =>
    simp only [matchThen] at hmatch
    split at hmatch
    · rename_i hc
      exact h c hc
    · cases hmatch

theorem Opens.seq (h : r.Opens p) : (seq r s).Opens p := fun hmatch => h hmatch

theorem Opens.alt (hr : r.Opens p) (hs : s.Opens p) : (alt r s).Opens p := by
  intro β before cs k b hmatch
  unfold matchThen at hmatch
  split at hmatch
  · rename_i hfound
    exact hr hfound
  · exact hs hmatch

theorem Opens.boundary (h : r.Opens p) : (Regex.seq boundary r).Opens p := by
  intro β before cs k b hmatch
  unfold matchThen matchThen at hmatch
  split at hmatch
  · exact h hmatch
  · cases hmatch

theorem opens_word {s : String} (h : s.toList.head?.any p = true) : (word s).Opens p := by
  unfold word
  cases hs : s.toList with
  | nil => rw [hs] at h; cases h
  | cons c cs =>
    rw [hs] at h
    refine Opens.seq (opens_one fun d hd => ?_)
    rwa [eq_of_beq hd]

/-! ## The search -/

/-- A search passes over a character where nothing is taken, and else goes on behind what is taken. -/
inductive Search (r : Regex) : Option Char → ℕ → List Char → List Match → Prop
  | done {before : Option Char} {offset : ℕ} : Search r before offset [] []
  | pass {before : Option Char} {offset : ℕ} {c : Char} {cs : List Char} {ms : List Match}
    (hnothing : ∀ rest, r.rest? before (c :: cs) = some rest → rest = c :: cs)
    (h : Search r (some c) (offset + 1) cs ms) : Search r before offset (c :: cs) ms
  | hit {before : Option Char} {offset : ℕ} {taken rest : List Char} {ms : List Match}
    (hne : taken ≠ []) (htaken : r.rest? before (taken ++ rest) = some rest)
    (h : Search r (behind before taken) (offset + taken.length) rest ms) :
    Search r before offset (taken ++ rest) (⟨offset, taken⟩ :: ms)

theorem findFrom_skip (r : Regex) (before : Option Char) (offset : ℕ) (skipped cs : List Char) :
    findFrom r before offset skipped.length (skipped ++ cs) =
      findFrom r (behind before skipped) (offset + skipped.length) 0 cs := by
  induction skipped generalizing before offset with
  | nil => rfl
  | cons c skipped ih =>
    have hstep : findFrom r before offset (c :: skipped).length (c :: skipped ++ cs) =
        findFrom r (some c) (offset + 1) skipped.length (skipped ++ cs) := rfl
    rw [hstep, ih, behind_cons, List.length_cons, Nat.add_assoc, Nat.add_comm 1]

theorem findFrom_pass (hnothing : ∀ rest, r.rest? before (c :: cs) = some rest → rest = c :: cs)
    (offset : ℕ) : findFrom r before offset 0 (c :: cs) = findFrom r (some c) (offset + 1) 0 cs := by
  rw [findFrom]
  split
  · rfl
  · rename_i rest hrest
    rw [hnothing rest hrest, List.length_cons, Nat.sub_self, if_pos rfl]

theorem findFrom_hit (hne : taken ≠ []) (htaken : r.rest? before (taken ++ rest) = some rest)
    (offset : ℕ) : findFrom r before offset 0 (taken ++ rest) =
      ⟨offset, taken⟩ :: findFrom r (behind before taken) (offset + taken.length) 0 rest := by
  obtain ⟨c, taken, rfl⟩ := List.exists_cons_of_ne_nil hne
  have hsize : (taken ++ rest).length + 1 - rest.length = taken.length + 1 := by
    rw [List.length_append]
    omega
  have hskip := findFrom_skip r (some c) (offset + 1) taken rest
  rw [List.cons_append] at htaken ⊢
  rw [findFrom]
  simp only [htaken, hsize]
  rw [if_neg (Nat.succ_ne_zero _), Nat.add_sub_cancel, hskip, behind_cons, List.length_cons,
    Nat.add_assoc, Nat.add_comm 1, ← List.cons_append, List.take_left' (List.length_cons ..)]

theorem search_findFrom (r : Regex) (before : Option Char) (offset : ℕ) (cs : List Char) :
    Search r before offset cs (findFrom r before offset 0 cs) := by
  induction h : cs.length using Nat.strongRecOn generalizing before offset cs with
  | _ n ih =>
    cases cs with
    | nil => exact .done
    | cons c cs =>
      have hpass (hnothing : ∀ rest, r.rest? before (c :: cs) = some rest → rest = c :: cs) :
          Search r before offset (c :: cs) (findFrom r before offset 0 (c :: cs)) := by
        rw [findFrom_pass hnothing]
        exact .pass hnothing (ih cs.length (h ▸ Nat.lt_succ_self _) _ _ cs rfl)
      cases hrest : r.rest? before (c :: cs) with
      | none => exact hpass fun rest hsome => absurd (hrest.symm.trans hsome) nofun
      | some rest =>
        obtain ⟨taken, hsplit, -⟩ := rest?_eq_some hrest
        by_cases hne : taken = []
        · refine hpass fun rest' hsome => ?_
          cases hrest.symm.trans hsome
          rw [hsplit, hne, List.nil_append]
        · have hshort : rest.length < n := by
            have := List.length_pos_of_ne_nil hne
            rw [← h, hsplit, List.length_append]
            omega
          rw [hsplit] at hrest ⊢
          rw [findFrom_hit hne hrest]
          exact .hit hne hrest (ih rest.length hshort _ _ rest rfl)

namespace Search

variable (h : Search r before offset cs ms)
include h

theorem placed : ∀ m ∈ ms, ∃ passed rest, cs = passed ++ m.text ++ rest ∧
    m.offset = offset + passed.length ∧ m.text ≠ [] ∧
    r.rest? (behind before passed) (m.text ++ rest) = some rest := by
  induction h with
  | done => exact List.forall_mem_nil _
  | @pass before offset c cs ms _ _ ih =>
    intro m hm
    obtain ⟨passed, rest, rfl, hoffset, hne, hrest⟩ := ih m hm
    refine ⟨c :: passed, rest, rfl, ?_, hne, by rwa [behind_cons]⟩
    rw [hoffset, List.length_cons, Nat.add_assoc, Nat.add_comm 1]
  | @hit before offset taken rest ms hne htaken _ ih =>
    refine List.forall_mem_cons.2 ⟨⟨[], rest, rfl, rfl, hne, htaken⟩, fun m hm => ?_⟩
    obtain ⟨passed, rest', rfl, hoffset, hne', hrest⟩ := ih m hm
    refine ⟨taken ++ passed, rest', by simp only [List.append_assoc], ?_, hne',
      by rwa [behind_append]⟩
    rw [hoffset, List.length_append, Nat.add_assoc]

/-- Matches are not empty, and stand at their places in the text. -/
theorem located : ∀ m ∈ ms, offset ≤ m.offset ∧ m.text ≠ [] ∧
    m.text <+: cs.drop (m.offset - offset) := by
  intro m hm
  obtain ⟨passed, rest, rfl, hoffset, hne, -⟩ := h.placed m hm
  refine ⟨hoffset ▸ Nat.le_add_right .., hne, ?_⟩
  rw [hoffset, Nat.add_sub_cancel_left, List.append_assoc, List.drop_left]
  exact List.prefix_append m.text rest

theorem pairwise : ms.Pairwise fun m m' => m.offset + m.text.length ≤ m'.offset := by
  induction h with
  | done => exact .nil
  | pass _ _ ih => exact ih
  | hit _ _ h ih => exact .cons (fun m hm => (h.located m hm).1) ih

theorem head (hr : r.Opens p) : ∀ m ∈ ms, m.text.head?.any p = true := by
  induction h with
  | done => exact List.forall_mem_nil _
  | pass _ _ ih => exact ih
  | @hit before offset taken rest ms hne htaken _ ih =>
    refine List.forall_mem_cons.2 ⟨?_, ih⟩
    obtain ⟨c, taken, rfl⟩ := List.exists_cons_of_ne_nil hne
    have hopens : (c :: taken ++ rest).head?.any p = true := hr htaken
    exact hopens

end Search

/-! ## Text in front -/

theorem findFrom_congr (r : Regex) (offset skip : ℕ) (cs : List Char)
    (hbefore : wordAt before = wordAt before') :
    findFrom r before offset skip cs = findFrom r before' offset skip cs := by
  cases cs with
  | nil => rfl
  | cons c cs =>
    unfold findFrom
    rw [rest?_congr hbefore]

def Match.moved (m : Match) (n : ℕ) : Match := ⟨n + m.offset, m.text⟩

theorem findFrom_moved (r : Regex) (before : Option Char) (n offset skip : ℕ) (cs : List Char) :
    findFrom r before (n + offset) skip cs =
      (findFrom r before offset skip cs).map (·.moved n) := by
  induction cs generalizing before offset skip with
  | nil => rfl
  | cons c cs ih =>
    unfold findFrom
    simp only [Nat.add_assoc, ih]
    split
    · rfl
    · split
      · rfl
      · split
        · rfl
        · rfl

/-- Characters in front of a text that no match begins with and that are no word characters move the
matches, and change nothing else. -/
theorem findAll_append {passed : List Char} (hr : r.Opens p)
    (hpassed : ∀ c ∈ passed, p c = false ∧ isWord c = false) (cs : List Char) :
    findAll r (passed ++ cs) = (findAll r cs).map (·.moved passed.length) := by
  have hskip (before : Option Char) (offset : ℕ) : findFrom r before offset 0 (passed ++ cs) =
      findFrom r (behind before passed) (offset + passed.length) 0 cs := by
    induction passed generalizing before offset with
    | nil => rfl
    | cons c passed ih =>
      rw [List.forall_mem_cons] at hpassed
      have hnothing : ∀ rest, r.rest? before (c :: (passed ++ cs)) = some rest →
          rest = c :: (passed ++ cs) := by
        intro rest hrest
        have hopens : p c = true := hr hrest
        rw [hpassed.1.1] at hopens
        cases hopens
      rw [List.cons_append, findFrom_pass hnothing, ih hpassed.2, behind_cons, List.length_cons,
        Nat.add_assoc, Nat.add_comm 1]
  have hbehind : wordAt (behind none passed) = wordAt none := by
    unfold behind wordAt
    rw [Option.or_none]
    cases hlast : passed.getLast? with
    | none => rfl
    | some c => exact (hpassed c (List.mem_of_getLast? hlast)).2
  unfold findAll
  rw [hskip, findFrom_congr r _ _ _ hbehind, Nat.zero_add]
  exact findFrom_moved r none passed.length 0 0 cs

end KnowledgeGraph.Text.Regex
