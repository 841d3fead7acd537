import KnowledgeGraph.Proofs.Number.Arithmetic

/-!
# Sums and means

Numbers of the unit interval may be added up in any grouping: the result is between zero and their
count, and near their exact sum (`IsSum`). Each addition keeps this (`IsSum.add`), so it holds of the
sums over blocks and halves that make up the sum of a list (`isSum_sum`). Hence a mean of numbers of
the unit interval is in the unit interval (`inUnit_mean`) and near the exact mean (`mean_near`).
-/

namespace KnowledgeGraph

/-! ## How much rounding changes -/

theorem abs_nearestInt_sub_le (q : ℚ) : |(nearestInt q : ℚ) - q| ≤ 1 / 2 := by
  have hfloor := Int.floor_add_fract q
  have hnonneg := Int.fract_nonneg q
  have hlt := Int.fract_lt_one q
  unfold nearestInt
  rw [abs_le]
  split_ifs with hbelow habove
  · constructor <;> linarith
  · push_cast
    constructor <;> linarith
  · have hhalf : Int.fract q = 1 / 2 := le_antisymm (not_lt.1 habove) (not_lt.1 hbelow)
    obtain heven | hodd := Int.emod_two_eq_zero_or_one ⌊q⌋
    · rw [heven, add_zero]
      constructor <;> linarith
    · rw [hodd]
      push_cast
      constructor <;> linarith

/-- A number that is not very small changes by half a unit of its 53rd digit at most. -/
theorem abs_rounded_sub_le {q b : ℚ} (h : |q| ≤ b) (hb : 1 ≤ b) : |rounded q - q| ≤ b / 2 ^ 53 := by
  have hgrid : (2 : ℚ) ^ gridExponent q ≤ b / 2 ^ 52 := by
    unfold gridExponent
    obtain hmax | hmax := max_choice (Int.log 2 |q| - 52) (-1074)
    · rw [hmax, zpow_sub₀ two_ne_zero]
      refine div_le_div_of_nonneg_right ?_ (by positivity)
      obtain rfl | hq := eq_or_ne q 0
      · simpa using hb
      · exact (Int.zpow_log_le_self one_lt_two (abs_pos.2 hq)).trans h
    · rw [hmax]
      calc (2 : ℚ) ^ (-1074 : ℤ) ≤ 2 ^ (-52 : ℤ) := zpow_le_zpow_right₀ one_le_two (by norm_num)
        _ = 1 / 2 ^ 52 := by norm_num
        _ ≤ b / 2 ^ 52 := div_le_div_of_nonneg_right hb (by positivity)
  have hpos := zpow_two_pos (gridExponent q)
  have hsteps := abs_nearestInt_sub_le (q / 2 ^ gridExponent q)
  have hsplit : rounded q - q =
      (nearestInt (q / 2 ^ gridExponent q) - q / 2 ^ gridExponent q) * 2 ^ gridExponent q := by
    unfold rounded
    rw [sub_mul, div_mul_cancel₀ _ hpos.ne']
  rw [hsplit, abs_mul, abs_of_pos hpos]
  calc |(nearestInt (q / 2 ^ gridExponent q) : ℚ) - q / 2 ^ gridExponent q| * 2 ^ gridExponent q
      ≤ 1 / 2 * (b / 2 ^ 52) := mul_le_mul hsteps hgrid hpos.le (by norm_num)
    _ = b / 2 ^ 53 := by ring

/-! ## Sums -/

/-- A number that comes of adding up `count` numbers of the unit interval, whose exact sum is
`total`. -/
structure IsSum (s : Float) (total : ℚ) (count : ℕ) : Prop where
  finite : s.isFinite = true
  nonneg : 0 ≤ value s
  le_count : value s ≤ count
  near : |value s - total| ≤ count ^ 2 / 2 ^ 53

theorem isSum_zero : IsSum 0 0 0 := ⟨by decide +kernel, le_rfl, by simp, by simp⟩

theorem InUnit.isSum {x : Float} (h : InUnit x) : IsSum x (value x) 1 := by
  obtain ⟨hfinite, hlow, hhigh⟩ := inUnit_iff_value.1 h
  exact ⟨hfinite, hlow, by simpa using hhigh, by simp⟩

theorem IsSum.value_eq_zero {s : Float} {total : ℚ} (h : IsSum s total 0) : value s = 0 :=
  le_antisymm (by simpa using h.le_count) h.nonneg

section

variable {x y : Float} {p q : ℚ} {k l : ℕ}

theorem IsSum.add (hx : IsSum x p k) (hy : IsSum y q l) (hlt : k + l < 2 ^ 53) :
    IsSum (x + y) (p + q) (k + l) := by
  have hnonneg : 0 ≤ value x + value y := add_nonneg hx.nonneg hy.nonneg
  have hle : value x + value y ≤ ((k + l : ℕ) : ℚ) := by
    push_cast
    exact add_le_add hx.le_count hy.le_count
  have hsmall : ((k + l : ℕ) : ℚ) ≤ 2 ^ 53 := by exact_mod_cast hlt.le
  have habs : |value x + value y| ≤ ((k + l : ℕ) : ℚ) := by rwa [abs_of_nonneg hnonneg]
  obtain ⟨hfinite, hvalue⟩ := add_value hx.finite hy.finite
    ((habs.trans hsmall).trans (two_pow_le (by decide)))
  -- What is added to nothing does not change; else the count bounds what rounding changes.
  have hround : |rounded (value x + value y) - (value x + value y)| ≤ 2 * k * l / 2 ^ 53 := by
    obtain rfl | hk := Nat.eq_zero_or_pos k
    · rw [hx.value_eq_zero, zero_add, rounded_value hy.finite]
      simp
    obtain rfl | hl := Nat.eq_zero_or_pos l
    · rw [hy.value_eq_zero, add_zero, rounded_value hx.finite]
      simp
    have hone : 1 ≤ ((k + l : ℕ) : ℚ) := by exact_mod_cast Nat.le_add_right_of_le hk
    have hproduct : ((k + l : ℕ) : ℚ) ≤ 2 * k * l := by exact_mod_cast (by nlinarith : k + l ≤ 2 * k * l)
    exact (abs_rounded_sub_le habs hone).trans
      (div_le_div_of_nonneg_right hproduct (by positivity))
  refine ⟨hfinite, hvalue ▸ rounded_nonneg hnonneg, ?_, ?_⟩
  · rw [hvalue, ← rounded_natCast hlt]
    exact rounded_mono hle
  · have hsplit : value (x + y) - (p + q) = (rounded (value x + value y) - (value x + value y)) +
        ((value x - p) + (value y - q)) := by
      rw [hvalue]
      ring
    rw [hsplit]
    calc |(rounded (value x + value y) - (value x + value y)) + ((value x - p) + (value y - q))|
        ≤ 2 * k * l / 2 ^ 53 + (k ^ 2 / 2 ^ 53 + l ^ 2 / 2 ^ 53) :=
          (abs_add_le _ _).trans (add_le_add hround ((abs_add_le _ _).trans
            (add_le_add hx.near hy.near)))
      _ = ((k + l : ℕ) : ℚ) ^ 2 / 2 ^ 53 := by
        push_cast
        ring

variable {xs : List Float}

theorem IsSum.foldl_add (hs : IsSum x p k) (h : ∀ x ∈ xs, InUnit x) (hlt : k + xs.length < 2 ^ 53) :
    IsSum (xs.foldl (· + ·) x) (p + (xs.map value).sum) (k + xs.length) := by
  induction xs generalizing x p k with
  | nil => simpa using hs
  | cons y xs ih =>
    rw [List.forall_mem_cons] at h
    rw [List.length_cons] at hlt
    have hnext := ih (hs.add h.1.isSum (by omega)) h.2 (by omega)
    rw [List.map_cons, List.sum_cons, List.length_cons, ← add_assoc, Nat.add_comm _ 1,
      ← Nat.add_assoc]
    exact hnext

end

/-! ## Rows of eight -/

/-- Eight sums side by side, each of as many numbers. -/
structure IsRow (row : List Float) (totals : List ℚ) (count : ℕ) : Prop where
  sums : List.Forall₂ (fun s total => IsSum s total count) row totals
  length : row.length = 8

section

variable {row block : List Float} {totals : List ℚ} {blocks : List (List Float)} {k : ℕ}

theorem isRow_block (h : ∀ x ∈ block, InUnit x) (hlength : block.length = 8) :
    IsRow block (block.map value) 1 := by
  refine ⟨?_, hlength⟩
  rw [List.forall₂_map_right_iff]
  exact List.forall₂_same.2 fun x hx => (h x hx).isSum

theorem forall₂_zipWith_add (hlt : k + 1 < 2 ^ 53)
    (hrow : List.Forall₂ (fun s total => IsSum s total k) row totals)
    (hblock : ∀ x ∈ block, InUnit x) (hlength : block.length = row.length) :
    ∃ totals', List.Forall₂ (fun s total => IsSum s total (k + 1)) (List.zipWith (· + ·) row block)
      totals' ∧ totals'.sum = totals.sum + (block.map value).sum := by
  induction hrow generalizing block with
  | nil =>
    rw [List.length_nil, List.length_eq_zero_iff] at hlength
    subst hlength
    exact ⟨[], .nil, (add_zero _).symm⟩
  | @cons s total row totals hs _ ih =>
    cases block with
    | nil => cases hlength
    | cons x block =>
      rw [List.forall_mem_cons] at hblock
      obtain ⟨totals', hsums, hsum⟩ := ih hblock.2 (Nat.succ.inj hlength)
      refine ⟨(total + value x) :: totals', .cons (hs.add hblock.1.isSum hlt) hsums, ?_⟩
      rw [List.sum_cons, List.sum_cons, List.map_cons, List.sum_cons, hsum]
      ring

theorem IsRow.foldl_blocks (hrow : IsRow row totals k)
    (hblocks : ∀ b ∈ blocks, b.length = 8 ∧ ∀ x ∈ b, InUnit x) (hlt : k + blocks.length < 2 ^ 53) :
    ∃ totals', IsRow (blocks.foldl (List.zipWith (· + ·)) row) totals' (k + blocks.length) ∧
      totals'.sum = totals.sum + (blocks.flatten.map value).sum := by
  induction blocks generalizing row totals k with
  | nil => exact ⟨totals, hrow, (add_zero _).symm⟩
  | cons block blocks ih =>
    rw [List.forall_mem_cons] at hblocks
    obtain ⟨⟨hlength, hblock⟩, hrest⟩ := hblocks
    rw [List.length_cons] at hlt
    obtain ⟨totals₁, hsums, hsum⟩ :=
      forall₂_zipWith_add (by omega) hrow.sums hblock (hlength.trans hrow.length.symm)
    have hlength₁ : (List.zipWith (· + ·) row block).length = 8 := by
      rw [List.length_zipWith, hrow.length, hlength]
      rfl
    obtain ⟨totals₂, hrow₂, hsum₂⟩ := ih ⟨hsums, hlength₁⟩ hrest (by omega)
    refine ⟨totals₂, ?_, ?_⟩
    · rw [List.length_cons, Nat.add_comm _ 1, ← Nat.add_assoc]
      exact hrow₂
    · rw [hsum₂, hsum, List.flatten_cons, List.map_append, List.sum_append, add_assoc]

theorem IsRow.sumPairs (hrow : IsRow row totals k) (hlt : 8 * k < 2 ^ 53) :
    IsSum (sumPairs row) totals.sum (8 * k) := by
  obtain ⟨hsums, hlength⟩ := hrow
  match row, hlength with
  | [a, b, c, d, e, f, g, h], _ =>
    simp only [List.forall₂_cons_left_iff, List.forall₂_nil_left_iff] at hsums
    obtain ⟨ta, _, ha, ⟨tb, _, hb, ⟨tc, _, hc, ⟨td, _, hd, ⟨te, _, he, ⟨tf, _, hf, ⟨tg, _, hg,
      ⟨th, _, hh, rfl, rfl⟩, rfl⟩, rfl⟩, rfl⟩, rfl⟩, rfl⟩, rfl⟩, rfl⟩ := hsums
    have habcd := (ha.add hb (by omega)).add (hc.add hd (by omega)) (by omega)
    have hefgh := (he.add hf (by omega)).add (hg.add hh (by omega)) (by omega)
    have htotal : (ta + tb + (tc + td)) + (te + tf + (tg + th)) =
        [ta, tb, tc, td, te, tf, tg, th].sum := by
      simp only [List.sum_cons, List.sum_nil]
      ring
    have hcount : (k + k + (k + k)) + (k + k + (k + k)) = 8 * k := by ring
    rw [← htotal, ← hcount]
    exact habcd.add hefgh (by omega)

end

/-! ## Sums of lists -/

section

variable {xs : List Float} (h : ∀ x ∈ xs, InUnit x)

theorem blocksOfEight_spec (xs : List Float) :
    xs = (blocksOfEight xs).1.flatten ++ (blocksOfEight xs).2 ∧
      ∀ b ∈ (blocksOfEight xs).1, b.length = 8 := by
  fun_induction blocksOfEight xs with
  | case1 a b c d e f g h rest blocks left hrest ih =>
    rw [hrest] at ih
    refine ⟨?_, List.forall_mem_cons.2 ⟨rfl, ih.2⟩⟩
    exact congrArg ([a, b, c, d, e, f, g, h] ++ ·) ih.1
  | case2 left => exact ⟨rfl, List.forall_mem_nil _⟩

theorem length_flatten_of_length_eq {α : Type} {blocks : List (List α)} {n : ℕ}
    (h : ∀ b ∈ blocks, b.length = n) : blocks.flatten.length = n * blocks.length := by
  rw [List.length_flatten, List.eq_replicate_of_mem (List.forall_mem_map.2 h), List.sum_replicate_nat,
    List.length_map, Nat.mul_comm]

include h

theorem isSum_sumBlocks (hlt : xs.length < 2 ^ 53) :
    IsSum (sumBlocks xs) (xs.map value).sum xs.length := by
  obtain ⟨hsplit, hlengths⟩ := blocksOfEight_spec xs
  unfold sumBlocks
  generalize blocksOfEight xs = parts at hsplit hlengths
  obtain ⟨blocks, left⟩ := parts
  cases blocks with
  | nil =>
    obtain rfl : xs = left := hsplit
    simpa using isSum_zero.foldl_add h (by omega)
  | cons block blocks =>
    obtain ⟨hblock, hblocks⟩ := List.forall_mem_cons.1 hlengths
    replace hsplit : xs = (block :: blocks).flatten ++ left := hsplit
    have hlength : xs.length = 8 * (1 + blocks.length) + left.length := by
      rw [hsplit, List.length_append, List.flatten_cons, List.length_append, hblock,
        length_flatten_of_length_eq hblocks]
      ring
    rw [hsplit, List.flatten_cons, List.append_assoc] at h
    rw [List.forall_mem_append, List.forall_mem_append] at h
    obtain ⟨htop, hmiddle, hleft⟩ := h
    obtain ⟨totals, hrow, htotals⟩ := (isRow_block htop hblock).foldl_blocks
      (fun b hb => ⟨hblocks b hb, fun x hx => hmiddle x (List.mem_flatten_of_mem hb hx)⟩)
      (by omega)
    have hsum := (hrow.sumPairs (by omega)).foldl_add hleft (by omega)
    rw [htotals, ← List.sum_append, ← List.map_append, ← List.sum_append, ← List.map_append,
      ← hlength, ← List.flatten_cons, ← hsplit] at hsum
    exact hsum

theorem isSum_sumHalving (depth : ℕ) (hlt : xs.length < 2 ^ 53) :
    IsSum (sumHalving depth xs) (xs.map value).sum xs.length := by
  induction depth generalizing xs with
  | zero => exact isSum_sumBlocks h hlt
  | succ depth ih =>
    unfold sumHalving
    split
    · exact isSum_sumBlocks h hlt
    · dsimp only
      generalize xs.length / 2 / 8 * 8 = half
      have hlength : (xs.take half).length + (xs.drop half).length = xs.length := by
        rw [← List.length_append, List.take_append_drop]
      have hfirst : IsSum (sumHalving depth (xs.take half)) ((xs.take half).map value).sum
          (xs.take half).length := ih (fun x hx => h x (List.mem_of_mem_take hx)) (by omega)
      have hsecond : IsSum (sumHalving depth (xs.drop half)) ((xs.drop half).map value).sum
          (xs.drop half).length := ih (fun x hx => h x (List.mem_of_mem_drop hx)) (by omega)
      have hboth := hfirst.add hsecond (by omega)
      rwa [hlength, ← List.sum_append, ← List.map_append, List.take_append_drop] at hboth

theorem isSum_sum (hlt : xs.length < 2 ^ 53) : IsSum (sum xs) (xs.map value).sum xs.length :=
  isSum_sumHalving h xs.length hlt

/-! ## Means -/

variable (hne : xs ≠ []) (hlt : xs.length < 2 ^ 53)
include hne hlt

/-- **The mean of numbers of the unit interval is in the unit interval.** -/
theorem inUnit_mean : InUnit (mean xs) := by
  have hsum := isSum_sum h hlt
  obtain ⟨hfinite, hcount⟩ := value_toFloat hlt
  have hpos : (0 : ℚ) < xs.length := by exact_mod_cast List.length_pos_of_ne_nil hne
  exact inUnit_div hsum.finite hfinite hsum.nonneg (hcount ▸ hsum.le_count) (hcount ▸ hpos)

/-- **The mean of numbers of the unit interval is near the exact mean.** -/
theorem mean_near :
    |value (mean xs) - (xs.map value).sum / xs.length| ≤ (xs.length + 1) / 2 ^ 53 := by
  have hsum := isSum_sum h hlt
  obtain ⟨hfinite, hcount⟩ := value_toFloat hlt
  have hpos : (0 : ℚ) < xs.length := by exact_mod_cast List.length_pos_of_ne_nil hne
  have hquotient : |value (sum xs) / xs.length| ≤ 1 := by
    rw [abs_of_nonneg (div_nonneg hsum.nonneg hpos.le)]
    exact (div_le_one hpos).2 hsum.le_count
  obtain ⟨-, hvalue⟩ := div_value hsum.finite hfinite (hcount ▸ hpos.ne')
    (hcount ▸ hquotient.trans (one_le_pow₀ one_le_two))
  rw [hcount] at hvalue
  have hsplit : value (mean xs) - (xs.map value).sum / xs.length =
      (rounded (value (sum xs) / xs.length) - value (sum xs) / xs.length) +
        (value (sum xs) - (xs.map value).sum) / xs.length := by
    unfold mean
    rw [hvalue]
    ring
  have hexact : |(value (sum xs) - (xs.map value).sum) / xs.length| ≤ xs.length / 2 ^ 53 := by
    rw [abs_div, abs_of_pos hpos, div_le_iff₀ hpos]
    calc |value (sum xs) - (xs.map value).sum| ≤ xs.length ^ 2 / 2 ^ 53 := hsum.near
      _ = xs.length / 2 ^ 53 * xs.length := by ring
  rw [hsplit]
  calc |(rounded (value (sum xs) / xs.length) - value (sum xs) / xs.length) +
        (value (sum xs) - (xs.map value).sum) / xs.length|
      ≤ 1 / 2 ^ 53 + xs.length / 2 ^ 53 :=
        (abs_add_le _ _).trans (add_le_add (abs_rounded_sub_le hquotient le_rfl) hexact)
    _ = (xs.length + 1) / 2 ^ 53 := by ring

end

end KnowledgeGraph
