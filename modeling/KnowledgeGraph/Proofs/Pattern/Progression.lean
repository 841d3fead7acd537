import KnowledgeGraph.Proofs.Pattern.Sequence

/-!
# Progressions of whole numbers

Progressions are found on floats, and differences that are close to each other count as equal
(`isClose`). For whole numbers of up to nine digits or so no harm is done: the floats are the numbers
themselves (`IsWhole`), and so are their differences, and two of them that are not equal are too far
apart to be close (`isClose_iff`). So a progression is reported exactly if there is one
(`sequencePatterns_progression`).
-/

namespace KnowledgeGraph

/-! ## Closeness -/

variable {m n : ℤ} {x y : Float}

theorem value_billionth : value 1e-9 = 4835703278458517 / 2 ^ 82 := by
  have hunpack : (1e-9 : Float).toModel.unpack =
    .finite .positive 4835703278458517 (-82) (by decide) := rfl
  unfold value
  rw [hunpack]
  show ((4835703278458517 : ℕ) : ℚ) * 2 ^ (-82 : ℤ) = _
  norm_num

theorem isModest_billionth : IsModest 1e-9 := by
  refine ⟨by decide +kernel, ?_⟩
  rw [value_billionth, abs_of_nonneg (by norm_num)]
  norm_num

theorem rounded_le_half {q : ℚ} (h : |q| ≤ 1 / 2) : |rounded q| ≤ 1 / 2 := by
  have hhalf : rounded (1 / 2) = 1 / 2 := by
    have := rounded_eq_self (n := 1) (e := -1) (by norm_num) (by norm_num)
    norm_num at this
    simpa using this
  obtain ⟨hlow, hhigh⟩ := abs_le.1 h
  have hlow := rounded_mono hlow
  have hhigh := rounded_mono hhigh
  rw [rounded_neg, hhalf] at hlow
  rw [hhalf] at hhigh
  exact abs_le.2 ⟨hlow, hhigh⟩

/-- A billionth of a number of up to nine digits is far from one. -/
theorem billionth_lt_one (hx : IsWhole n x) (hn : |n| ≤ 2 * 10 ^ 8) :
    ((1e-9 : Float) * x).abs.isFinite = true ∧ value ((1e-9 : Float) * x).abs < 1 := by
  obtain ⟨hfinite, hvalue⟩ := isModest_billionth.mul (hx.isModest (by omega))
  have hsmall : |value ((1e-9 : Float) * x)| ≤ 1 / 2 := by
    rw [hvalue]
    refine rounded_le_half ?_
    have hcast : |(n : ℚ)| ≤ 2 * 10 ^ 8 := by exact_mod_cast hn
    rw [value_billionth, hx.value_eq, abs_mul, abs_of_nonneg (by norm_num)]
    calc (4835703278458517 / 2 ^ 82 : ℚ) * |(n : ℚ)|
        ≤ 4835703278458517 / 2 ^ 82 * (2 * 10 ^ 8) := by gcongr
      _ ≤ 1 / 2 := by norm_num
  obtain ⟨habs, habsValue⟩ := IsModest.abs ⟨hfinite, hsmall.trans (by norm_num)⟩
  exact ⟨habs.finite, by rw [habsValue]; linarith⟩

/-- **Closeness.** Whole numbers of up to nine digits are close only if they are equal. -/
theorem isClose_iff (hx : IsWhole m x) (hy : IsWhole n y) (hm : |m| ≤ 2 * 10 ^ 8)
    (hn : |n| ≤ 2 * 10 ^ 8) : isClose x y = true ↔ m = n := by
  have hbeq : (x == y) = true ↔ m = n := by
    rw [beq_iff_value hx.finite hy.finite, hx.value_eq, hy.value_eq, Int.cast_inj]
  unfold isClose
  by_cases heq : m = n
  · rw [if_pos (hbeq.2 heq)]
    exact iff_of_true rfl heq
  · rw [if_neg fun h => heq (hbeq.1 h), isInf_of_isFinite hx.finite, isInf_of_isFinite hy.finite]
    refine iff_of_false ?_ heq
    have hdiff := hy.sub hx (by omega) (by omega)
    obtain ⟨hdistance, hvalue⟩ := IsModest.abs (hdiff.isModest (by rw [abs_le] at hm hn ⊢; omega))
    have hone : 1 ≤ value (y - x).abs := by
      rw [hvalue, hdiff.value_eq]
      have hne : n - m ≠ 0 := fun h => heq (by omega)
      exact_mod_cast Int.one_le_abs hne
    have hfar {z : Float} (hz : z.isFinite = true) (hlt : value z < 1) : ¬ (y - x).abs ≤ z := by
      rw [le_iff_value hdistance.finite hz]
      linarith
    obtain ⟨hfiniteX, hltX⟩ := billionth_lt_one hx hm
    obtain ⟨hfiniteY, hltY⟩ := billionth_lt_one hy hn
    have hbillionth : value 1e-9 < 1 := by
      rw [value_billionth]
      norm_num
    simp [hfar hfiniteX hltX, hfar hfiniteY hltY, hfar isModest_billionth.finite hbillionth]

/-! ## Differences -/

def steps (ns : List ℤ) : List ℤ := neighbourPairs (fun a b => b - a) ns

/-- Numbers in a progression, each greater than the one before by the same difference. -/
def IsProgressionBy (d : ℤ) (ns : List ℤ) : Prop := ns.IsChain fun a b => b - a = d

theorem steps_cons (a b : ℤ) (ns : List ℤ) : steps (a :: b :: ns) = (b - a) :: steps (b :: ns) := rfl

theorem isProgressionBy_iff {d : ℤ} {ns : List ℤ} :
    IsProgressionBy d ns ↔ ∀ e ∈ steps ns, e = d := by
  unfold IsProgressionBy
  induction ns with
  | nil => exact iff_of_true .nil nofun
  | cons a rest ih =>
    cases rest with
    | nil => exact iff_of_true (.singleton a) nofun
    | cons b rest =>
      rw [List.isChain_cons_cons, steps_cons, List.forall_mem_cons, ih]

theorem abs_le_of_mem_steps {ns : List ℤ} (h : ∀ n ∈ ns, |n| ≤ 10 ^ 8) :
    ∀ e ∈ steps ns, |e| ≤ 2 * 10 ^ 8 := by
  induction ns with
  | nil => exact nofun
  | cons a rest ih =>
    cases rest with
    | nil => exact nofun
    | cons b rest =>
      rw [List.forall_mem_cons] at h
      rw [steps_cons, List.forall_mem_cons]
      refine ⟨?_, ih h.2⟩
      have ha := abs_le.1 h.1
      have hb := abs_le.1 (h.2 b List.mem_cons_self)
      rw [abs_le]
      omega

theorem isWhole_steps {ns : List ℤ} {xs : List Float} (h : List.Forall₂ IsWhole ns xs)
    (hsmall : ∀ n ∈ ns, |n| ≤ 10 ^ 8) :
    List.Forall₂ IsWhole (steps ns) (neighbourPairs (fun a b => b - a) xs) := by
  induction h with
  | nil => exact .nil
  | @cons a x ns xs hx h ih =>
    cases h with
    | nil => exact .nil
    | @cons b y ns xs hy h =>
      rw [List.forall_mem_cons] at hsmall
      have hb := hsmall.2 b List.mem_cons_self
      exact .cons (hy.sub hx (by omega) (by omega)) (ih hsmall.2)

theorem all_isClose_iff {ds : List ℤ} {xs : List Float} (h : List.Forall₂ IsWhole ds xs)
    (hsmall : ∀ d ∈ ds, |d| ≤ 2 * 10 ^ 8) {d : ℤ} {x : Float} (hx : IsWhole d x)
    (hd : |d| ≤ 2 * 10 ^ 8) : xs.all (isClose · x) = true ↔ ∀ e ∈ ds, e = d := by
  induction h with
  | nil => exact iff_of_true rfl nofun
  | cons hy _ ih =>
    rw [List.forall_mem_cons] at hsmall ⊢
    rw [List.all_cons, Bool.and_eq_true, isClose_iff hy hx hsmall.1 hd, ih hsmall.2]

/-! ## Detection -/

theorem exists_numbers {ns : List ℤ} (hthree : 3 ≤ ns.length) (hsmall : ∀ n ∈ ns, |n| ≤ 10 ^ 8) :
    ∃ xs, numbersOf? (ns.map fun n => .raw (.int n)) = some xs ∧ List.Forall₂ IsWhole ns xs := by
  unfold numbersOf?
  rw [List.length_map, if_neg (by omega)]
  clear hthree
  induction ns with
  | nil => exact ⟨[], rfl, .nil⟩
  | cons n ns ih =>
    rw [List.forall_mem_cons] at hsmall
    obtain ⟨x, hread, hx⟩ := exists_isWhole (hsmall.1.trans (by norm_num))
    obtain ⟨xs, hxs, hrest⟩ := ih hsmall.2
    have hfinite : Value.finite? (.int n) = some x := congrArg Except.toOption hread
    refine ⟨x :: xs, ?_, .cons hx hrest⟩
    rw [List.map_cons, List.mapM_cons]
    dsimp only
    rw [hfinite, hxs]
    rfl

/-- A pattern says of whole numbers that the first ten, or all if there are fewer, are in a
progression: by which difference, from which number on, and how many there are. -/
def Pattern.Shows (ns : List ℤ) (p : Pattern) : Prop :=
  ∃ d first difference start, IsProgressionBy d (ns.take 10) ∧ ns.head? = some first ∧
    IsWhole d difference ∧ IsWhole first start ∧
    p.shape = .arithmetic difference start (min 10 ns.length)

theorem arithmetic?_eq {xs ys : List Float} {x y : Float} (h : xs.take 10 = x :: y :: ys) :
    arithmetic? {} xs = if (y - x).isFinite &&
        ((y - x) :: neighbourPairs (fun a b => b - a) (y :: ys)).all (isClose · (y - x)) then
      .ok (some (.of (.arithmetic (y - x) x (xs.take 10).length) 0.9
        ((xs.take 10).map fun x => .raw (.float x))))
    else .ok none := by
  have hlimit : ({} : DetectionConfig).sequenceWindow.limit? = .ok (some 10) := rfl
  have htake : takeUpTo (some 10) xs = xs.take 10 := rfl
  unfold arithmetic?
  rw [hlimit, Except.ok_bind, htake, h]
  rfl

theorem arithmetic?_progression {ns : List ℤ} {xs : List Float} (hxs : List.Forall₂ IsWhole ns xs)
    (hthree : 3 ≤ ns.length) (hsmall : ∀ n ∈ ns, |n| ≤ 10 ^ 8) :
    ∃ found, arithmetic? {} xs = .ok found ∧
      (found.isSome = true ↔ ∃ d, IsProgressionBy d (ns.take 10)) ∧ ∀ p ∈ found, p.Shows ns := by
  have hwindow : List.Forall₂ IsWhole (ns.take 10) (xs.take 10) := List.forall₂_take 10 hxs
  have hsmall : ∀ n ∈ ns.take 10, |n| ≤ 10 ^ 8 := fun n hn => hsmall n (List.mem_of_mem_take hn)
  have hlength : (xs.take 10).length = min 10 ns.length := by
    rw [List.length_take, hxs.length_eq]
  obtain ⟨a, b, rest, hns⟩ : ∃ a b rest, ns.take 10 = a :: b :: rest := by
    match ns, hthree with
    | a :: b :: rest, _ => exact ⟨a, b, rest.take 8, rfl⟩
  have hhead : ns.head? = some a := by
    have htake : (ns.take 10).head? = ns.head? := List.head?_take
    rw [← htake, hns]
    rfl
  unfold Pattern.Shows
  rw [hns] at hwindow hsmall ⊢
  obtain ⟨x, _, ha, hwindow, hxs⟩ := List.forall₂_cons_left_iff.1 hwindow
  obtain ⟨y, ys, hb, hrest, rfl⟩ := List.forall₂_cons_left_iff.1 hwindow
  have hsteps := isWhole_steps (.cons ha (.cons hb hrest)) hsmall
  have hbounds := abs_le_of_mem_steps hsmall
  have hfirst : IsWhole (b - a) (y - x) := (List.forall₂_cons.1 hsteps).1
  have hall : ((y - x) :: neighbourPairs (fun a b => b - a) (y :: ys)).all
      (isClose · (y - x)) = true ↔ IsProgressionBy (b - a) (a :: b :: rest) := by
    rw [isProgressionBy_iff]
    exact all_isClose_iff hsteps hbounds hfirst (hbounds _ List.mem_cons_self)
  rw [arithmetic?_eq hxs, hfirst.finite, Bool.true_and, hlength]
  by_cases hprogression : IsProgressionBy (b - a) (a :: b :: rest)
  · rw [if_pos (hall.2 hprogression)]
    refine ⟨_, rfl, iff_of_true rfl ⟨_, hprogression⟩, ?_⟩
    rintro p ⟨⟩
    exact ⟨b - a, a, y - x, x, hprogression, hhead, hfirst, ha, rfl⟩
  · rw [if_neg fun h => hprogression (hall.1 h)]
    refine ⟨none, rfl, iff_of_false Bool.false_ne_true ?_, nofun⟩
    rintro ⟨d, hd⟩
    obtain rfl : b - a = d := (List.isChain_cons_cons.1 hd).1
    exact hprogression hd

theorem Pattern.mark_fst (p : Pattern) : p.mark.1 = p.shape.kind := by
  obtain ⟨shape, confidence, instances⟩ := p
  cases shape <;> rfl

/-- Patterns that are told apart by some marks are of their kinds. -/
theorem AreGrounded.kind_mem {items : List Value} {elements : List Item}
    {marks : List (String × Option Value)} {found : List Pattern}
    (h : AreGrounded items elements marks found) {p : Pattern} (hp : p ∈ found) :
    p.shape.kind ∈ marks.map (·.1) := by
  rw [← p.mark_fst]
  exact List.mem_map_of_mem (h.marks.mem (List.mem_map_of_mem hp))

/-- In numbers, what is found beside an arithmetic progression is of other kinds. -/
theorem sequencePatterns_numbers {elements : List Item} {xs : List Float}
    {arithmetic : Option Pattern} (hitems : elements.mapM asAtom = .ok elements)
    (hplain : ∀ item ∈ elements, Slot.IsPlain item) (hwritable : AreWritable elements)
    (hknowns : Slot.knowns elements = []) (hxs : numbersOf? elements = some xs)
    (harithmetic : arithmetic? {} xs = .ok arithmetic) :
    ∃ others, sequencePatterns {} elements = .ok (arithmetic.toList ++ others) ∧
      ∀ p ∈ others, p.shape.kind ≠ "arithmetic-sequence" := by
  have hnone (a : Atom) : .known a ∉ elements := by
    rw [← Slot.mem_knowns, hknowns]
    exact List.not_mem_nil
  have hnames : HaveTextNames (Slot.knowns elements) := by
    rw [hknowns]
    exact fun _ => List.forall_mem_nil _
  have hjson : ∀ item ∈ elements, item.IsJson := by
    intro item hitem
    cases item with
    | known a => exact absurd hitem (hnone a)
    | raw v =>
      obtain ⟨w, hw, hkeyed⟩ := hplain _ hitem
      cases hw
      exact hkeyed.isJson
  obtain ⟨found, hfound, -⟩ := sequencePatterns_finds hitems hjson
    DetectionConfig.isUsable_default hnames hwritable
  have heq := hfound
  rw [sequencePatterns_default hitems] at heq
  unfold progressions clusters at heq
  rw [hxs, hknowns] at heq
  dsimp only at heq
  rw [harithmetic, Except.ok_bind] at heq
  obtain ⟨progressions, hprogressions, heq⟩ := Except.bind_eq_ok.1 heq
  obtain ⟨geometric, hgeometric, hprogressions⟩ := Except.bind_eq_ok.1 hprogressions
  obtain ⟨repetition, hrepetition, heq⟩ := Except.bind_eq_ok.1 heq
  obtain ⟨hierarchy, hhierarchy, heq⟩ := Except.bind_eq_ok.1 heq
  cases hprogressions
  cases heq
  have hrepetition : AreGrounded [] elements [("repetition", none)] repetition.toList :=
    repetition?_grounded hplain hrepetition
  have hhierarchy : AreGrounded [] elements [("hierarchical", none)] hierarchy.toList :=
    hierarchy?_grounded hhierarchy
  refine ⟨geometric.toList ++ repetition.toList ++ hierarchy.toList, ?_, fun p hp hkind => ?_⟩
  · rw [hfound]
    simp [List.append_assoc]
  · simp only [List.mem_append, Option.mem_toList] at hp
    obtain (hp | hp) | hp := hp
    · obtain rfl := Option.mem_def.1 hp
      obtain ⟨_, _, _, _, rfl⟩ := geometric?_eq_some hgeometric
      simp [Pattern.of, Shape.kind] at hkind
    · have hmem := hrepetition.kind_mem (Option.mem_toList.2 hp)
      rw [hkind] at hmem
      simp at hmem
    · have hmem := hhierarchy.kind_mem (Option.mem_toList.2 hp)
      rw [hkind] at hmem
      simp at hmem

/-- **Progressions.** In three or more whole numbers of up to eight digits a progression is reported
exactly if the first ten of them, or all if there are fewer, are in one; and what is reported is its
difference, its first number and its length. -/
theorem sequencePatterns_progression (ns : List ℤ) (hthree : 3 ≤ ns.length)
    (hsmall : ∀ n ∈ ns, |n| ≤ 10 ^ 8) :
    ∃ found, sequencePatterns {} (ns.map fun n => .raw (.int n)) = .ok found ∧
      ((∃ p ∈ found, p.shape.kind = "arithmetic-sequence") ↔
        ∃ d, IsProgressionBy d (ns.take 10)) ∧
      ∀ p ∈ found, p.shape.kind = "arithmetic-sequence" → p.Shows ns := by
  obtain ⟨xs, hxs, hwhole⟩ := exists_numbers hthree hsmall
  obtain ⟨arithmetic, harithmetic, hsome, hshows⟩ := arithmetic?_progression hwhole hthree hsmall
  have hitems : (ns.map fun n => (.raw (.int n) : Item)).mapM asAtom =
      .ok (ns.map fun n => .raw (.int n)) := by
    rw [Except.mapM_of_forall (g := id), List.map_id]
    exact List.forall_mem_map.2 fun n _ => rfl
  have hplain : ∀ item ∈ ns.map fun n => (.raw (.int n) : Item), Slot.IsPlain item :=
    List.forall_mem_map.2 fun n _ => .raw (.scalar _)
  have hwritable : AreWritable (ns.map fun n => (.raw (.int n) : Item)) := by
    refine fun _ => List.forall_mem_map.2 fun n hn => ?_
    have hlimit : 10 ^ 9 ≤ numberLimit := Value.pow_le_numberLimit (by decide)
    have hnumber := hsmall n hn
    rw [Int.abs_eq_natAbs] at hnumber
    rw [Slot.isWritable_raw, Value.int, Value.isWritable_scalar, Value.isWritable_scalarInt]
    omega
  have hknowns : Slot.knowns (ns.map fun n => (.raw (.int n) : Item)) = [] :=
    List.filterMap_eq_nil_iff.2 (List.forall_mem_map.2 fun n _ => rfl)
  obtain ⟨others, hfound, hothers⟩ :=
    sequencePatterns_numbers hitems hplain hwritable hknowns hxs harithmetic
  refine ⟨_, hfound, ?_, fun p hp hkind => ?_⟩
  · rw [← hsome]
    constructor
    · rintro ⟨p, hp, hkind⟩
      obtain hp | hp := List.mem_append.1 hp
      · exact Option.isSome_of_mem (Option.mem_toList.1 hp)
      · exact absurd hkind (hothers p hp)
    · intro h
      obtain ⟨p, rfl⟩ := Option.isSome_iff_exists.1 h
      obtain ⟨d, first, difference, start, -, -, -, -, hshape⟩ := hshows p rfl
      exact ⟨p, List.mem_append_left _ List.mem_cons_self, by rw [hshape]; rfl⟩
  · obtain hp | hp := List.mem_append.1 hp
    · exact hshows p (Option.mem_toList.1 hp)
    · exact absurd hkind (hothers p hp)

/-- In eleven numbers a last one that breaks the progression is not looked at. -/
theorem sequencePatterns_progression_eleven :
    let ns : List ℤ := [3, 1, -1, -3, -5, -7, -9, -11, -13, -15, 100000000]
    ∃ found, sequencePatterns {} (ns.map fun n => .raw (.int n)) = .ok found ∧
      ∃ p ∈ found, ∃ difference start, p.shape = .arithmetic difference start 10 ∧
        IsWhole (-2) difference ∧ IsWhole 3 start := by
  intro ns
  obtain ⟨found, hfound, hreports, hshows⟩ := sequencePatterns_progression ns (by decide) (by decide)
  have hprogression : IsProgressionBy (-2) (ns.take 10) := isProgressionBy_iff.2 (by decide)
  obtain ⟨p, hp, hkind⟩ := hreports.2 ⟨_, hprogression⟩
  obtain ⟨d, first, difference, start, hd, hfirst, hdifference, hstart, hshape⟩ := hshows p hp hkind
  obtain rfl : -2 = d := isProgressionBy_iff.1 hd (-2) (by decide)
  cases hfirst
  exact ⟨found, hfound, p, hp, difference, start, hshape, hdifference, hstart⟩

end KnowledgeGraph
