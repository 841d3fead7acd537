import KnowledgeGraph.Selection
import Mathlib.Data.List.Forall2

/-!
# Computations that may stop

A bind comes out well exactly when both of its steps do (`bind_eq_ok`), and a list is gone through
well exactly when each of its members is (`mapM_eq_ok`, `mapM_eq_error`). A filter whose test may
stop keeps the members that pass (`filterE_eq_ok`). Where only the fact matters that something comes
out, a computation `Returns`; what it may stop at is what it `FailsWith`, and what it `Gives` has a
property.
-/

namespace KnowledgeGraph.Except

variable {ε α β : Type}

/-! ## Steps -/

@[simp] theorem pure_eq (a : α) : (pure a : Except ε α) = .ok a := rfl

@[simp] theorem ok_bind (a : α) (g : α → Except ε β) : (Except.ok a >>= g) = g a := rfl

@[simp] theorem error_bind (e : ε) (g : α → Except ε β) :
    ((Except.error e : Except ε α) >>= g) = .error e := rfl

theorem bind_eq_ok {x : Except ε α} {g : α → Except ε β} {b : β} :
    (x >>= g) = .ok b ↔ ∃ a, x = .ok a ∧ g a = .ok b := by
  cases x with
  | error e => simp
  | ok a => simp

theorem map_eq_ok {x : Except ε α} {g : α → β} {b : β} :
    x.map g = .ok b ↔ ∃ a, x = .ok a ∧ g a = b := by
  cases x with
  | error e => simp [Except.map]
  | ok a => simp [Except.map]

/-- The computation returns something. -/
def Returns (x : Except ε α) : Prop := ∃ a, x = .ok a

theorem returns_ok (a : α) : Returns (.ok a : Except ε α) := ⟨a, rfl⟩

theorem returns_of_isOk {x : Except ε α} (h : x.isOk = true) : Returns x := by
  cases x with
  | ok a => exact returns_ok a
  | error e => cases h

theorem not_returns_error (e : ε) : ¬ Returns (.error e : Except ε α) :=
  fun h => nomatch h.choose_spec

theorem returns_bind {x : Except ε α} {g : α → Except ε β} {a : α} (hx : x = .ok a)
    (hg : Returns (g a)) : Returns (x >>= g) := by
  rw [hx]
  exact hg

theorem Returns.of_bind {x : Except ε α} {g : α → Except ε β} (h : Returns (x >>= g)) :
    ∃ a, x = .ok a ∧ Returns (g a) := by
  obtain ⟨b, hb⟩ := h
  obtain ⟨a, ha, hg⟩ := bind_eq_ok.1 hb
  exact ⟨a, ha, b, hg⟩

/-- The computation returns something that has the property. -/
def Gives (P : α → Prop) (x : Except ε α) : Prop := ∃ a, x = .ok a ∧ P a

theorem gives_ok {P : α → Prop} {a : α} (h : P a) : Gives P (.ok a : Except ε α) := ⟨a, rfl, h⟩

theorem Gives.returns {P : α → Prop} {x : Except ε α} (h : Gives P x) : Returns x :=
  h.imp fun _ ha => ha.1

/-- A bind gives what its second step gives on all that the first one may give. -/
theorem Gives.bind {P : α → Prop} {Q : β → Prop} {x : Except ε α} {g : α → Except ε β}
    (hx : Gives P x) (hg : ∀ a, P a → Gives Q (g a)) : Gives Q (x >>= g) := by
  obtain ⟨a, rfl, ha⟩ := hx
  exact hg a ha

theorem Returns.bind {Q : β → Prop} {x : Except ε α} {g : α → Except ε β} (hx : Returns x)
    (hg : ∀ a, Gives Q (g a)) : Gives Q (x >>= g) := by
  obtain ⟨a, rfl⟩ := hx
  exact hg a

/-- Whatever the computation stops at has the property. -/
def FailsWith (P : ε → Prop) (x : Except ε α) : Prop := ∀ e, x = .error e → P e

theorem failsWith_ok {P : ε → Prop} (a : α) : FailsWith P (.ok a : Except ε α) := nofun

theorem failsWith_error {P : ε → Prop} {e : ε} (h : P e) : FailsWith P (.error e : Except ε α) := by
  rintro _ ⟨⟩
  exact h

theorem FailsWith.bind {P : ε → Prop} {x : Except ε α} {g : α → Except ε β} (hx : FailsWith P x)
    (hg : ∀ a, x = .ok a → FailsWith P (g a)) : FailsWith P (x >>= g) := by
  cases x with
  | error e => exact failsWith_error (hx e rfl)
  | ok a => exact hg a rfl

/-! ## Lists -/

theorem mapM_of_forall {f : α → Except ε β} {g : α → β} :
    ∀ {xs : List α}, (∀ x ∈ xs, f x = .ok (g x)) → xs.mapM f = .ok (xs.map g) := by
  intro xs
  induction xs with
  | nil => intro _; rfl
  | cons x xs ih =>
    intro h
    have hrest : xs.mapM f = .ok (xs.map g) := ih fun y hy => h y (List.mem_cons_of_mem x hy)
    rw [List.mapM_cons, h x List.mem_cons_self, ok_bind, hrest]
    rfl

theorem mapM_eq_ok {f : α → Except ε β} :
    ∀ {xs : List α} {ys : List β},
      xs.mapM f = .ok ys ↔ List.Forall₂ (fun x y => f x = .ok y) xs ys := by
  intro xs
  induction xs with
  | nil =>
    intro ys
    rw [List.mapM_nil, pure_eq, Except.ok.injEq, List.forall₂_nil_left_iff]
    exact eq_comm
  | cons x xs ih =>
    intro ys
    simp only [List.mapM_cons, bind_eq_ok, pure_eq, Except.ok.injEq, List.forall₂_cons_left_iff]
    constructor
    · rintro ⟨y, hy, zs, hzs, rfl⟩
      exact ⟨y, zs, hy, ih.1 hzs, rfl⟩
    · rintro ⟨y, zs, hy, hzs, rfl⟩
      exact ⟨y, hy, zs, ih.2 hzs, rfl⟩

/-- In lists that are related member by member, each of the second one has its counterpart. -/
theorem exists_of_forall₂ {R : α → β → Prop} {xs : List α} {ys : List β}
    (h : List.Forall₂ R xs ys) {y : β} (hy : y ∈ ys) : ∃ x ∈ xs, R x y := by
  induction h with
  | nil => cases hy
  | cons hx _ ih =>
    rcases List.mem_cons.1 hy with rfl | hy
    · exact ⟨_, List.mem_cons_self, hx⟩
    · obtain ⟨x, hmem, hx⟩ := ih hy
      exact ⟨x, List.mem_cons_of_mem _ hmem, hx⟩

theorem exists_target_of_mapM_eq_ok {f : α → Except ε β} {xs : List α} {ys : List β}
    (h : xs.mapM f = .ok ys) {x : α} (hx : x ∈ xs) : ∃ y ∈ ys, f x = .ok y :=
  exists_of_forall₂ (mapM_eq_ok.1 h).flip hx

theorem exists_of_mapM_eq_ok {f : α → Except ε β} {xs : List α} {ys : List β}
    (h : xs.mapM f = .ok ys) {x : α} (hx : x ∈ xs) : ∃ y, f x = .ok y :=
  (exists_target_of_mapM_eq_ok h hx).imp fun _ hy => hy.2

theorem exists_source_of_mapM_eq_ok {f : α → Except ε β} {xs : List α} {ys : List β}
    (h : xs.mapM f = .ok ys) {y : β} (hy : y ∈ ys) : ∃ x ∈ xs, f x = .ok y :=
  exists_of_forall₂ (mapM_eq_ok.1 h) hy

theorem mapM_eq_error {f : α → Except ε β} {e : ε} :
    ∀ {xs : List α}, xs.mapM f = .error e → ∃ x ∈ xs, f x = .error e := by
  intro xs
  induction xs with
  | nil => intro h; cases h
  | cons x xs ih =>
    intro h
    rw [List.mapM_cons] at h
    cases hx : f x with
    | error e' =>
      rw [hx, error_bind, Except.error.injEq] at h
      exact ⟨x, List.mem_cons_self, h ▸ hx⟩
    | ok y =>
      rw [hx, ok_bind] at h
      cases hxs : xs.mapM f with
      | error e' =>
        rw [hxs, error_bind, Except.error.injEq] at h
        obtain ⟨z, hz, hfz⟩ := ih (h ▸ hxs)
        exact ⟨z, List.mem_cons_of_mem x hz, hfz⟩
      | ok ys => rw [hxs] at h; cases h

/-- What every step keeps that comes out well, a whole run over a list keeps. -/
theorem foldlM_keeps {f : β → α → Except ε β} {P : β → Prop} {xs : List α}
    (hstep : ∀ x ∈ xs, ∀ {b b' : β}, P b → f b x = .ok b' → P b') :
    ∀ {b b' : β}, P b → xs.foldlM f b = .ok b' → P b' := by
  induction xs with
  | nil =>
    rintro b _ hb ⟨⟩
    exact hb
  | cons x xs ih =>
    intro b b' hb h
    rw [List.foldlM_cons] at h
    obtain ⟨c, hc, h⟩ := bind_eq_ok.1 h
    exact ih (fun y hy => hstep y (List.mem_cons_of_mem x hy)) (hstep x List.mem_cons_self hb hc) h

/-- Where every step of a run is a pure one, so is the run. -/
theorem exists_foldl {γ : Type} {f : β → α → Except ε β} {g : β → γ → β} {P : α → γ → Prop} :
    ∀ {xs : List α}, (∀ x ∈ xs, ∃ c, P x c ∧ ∀ b, f b x = .ok (g b c)) →
      ∃ cs, List.Forall₂ P xs cs ∧ ∀ b, xs.foldlM f b = .ok (cs.foldl g b) := by
  intro xs
  induction xs with
  | nil => exact fun _ => ⟨[], .nil, fun b => rfl⟩
  | cons x xs ih =>
    intro h
    obtain ⟨c, hc, hstep⟩ := h x List.mem_cons_self
    obtain ⟨cs, hcs, hrun⟩ := ih fun y hy => h y (List.mem_cons_of_mem x hy)
    refine ⟨c :: cs, .cons hc hcs, fun b => ?_⟩
    rw [List.foldlM_cons, hstep, ok_bind]
    exact hrun _

/-- Steps that change nothing can be left out of a run. -/
theorem foldlM_filter {f : β → α → Except ε β} {p : α → Bool} :
    ∀ {xs : List α}, (∀ x ∈ xs, p x = false → ∀ b, f b x = .ok b) →
      ∀ b, (xs.filter p).foldlM f b = xs.foldlM f b := by
  intro xs
  induction xs with
  | nil => exact fun _ b => rfl
  | cons x xs ih =>
    intro h b
    have hrest := ih fun y hy => h y (List.mem_cons_of_mem x hy)
    rw [List.filter_cons, List.foldlM_cons]
    split
    · rw [List.foldlM_cons]
      exact congrArg _ (funext hrest)
    · rename_i hx
      rw [h x List.mem_cons_self (Bool.not_eq_true _ ▸ hx), ok_bind, hrest]

/-- A list of which some members come to something and the others are left out. -/
theorem exists_mapM_filterMap {f : α → Except ε (Option β)} {p : α → Prop} [DecidablePred p]
    {R : α → β → Prop} : ∀ {xs : List α},
      (∀ x ∈ xs, if p x then ∃ y, f x = .ok (some y) ∧ R x y else f x = .ok none) →
      ∃ ys, xs.mapM f = .ok ys ∧ List.Forall₂ R (xs.filter p) (ys.filterMap id) := by
  intro xs
  induction xs with
  | nil => exact fun _ => ⟨[], rfl, .nil⟩
  | cons x xs ih =>
    intro h
    have hx := h x List.mem_cons_self
    obtain ⟨ys, hys, hrest⟩ := ih fun y hy => h y (List.mem_cons_of_mem x hy)
    rw [List.filter_cons, List.mapM_cons, hys]
    by_cases hp : p x
    · rw [if_pos hp] at hx
      obtain ⟨y, hy, hR⟩ := hx
      rw [hy, if_pos (decide_eq_true hp)]
      exact ⟨some y :: ys, rfl, .cons hR hrest⟩
    · rw [if_neg hp] at hx
      rw [hx, if_neg (by simpa using hp)]
      exact ⟨none :: ys, rfl, hrest⟩

/-- Where the steps that stop do so for one reason, so does the list, if there is such a step. -/
theorem mapM_of_ite {f : α → Except ε β} {g : α → β} {p : α → Bool} {e : ε} :
    ∀ {xs : List α}, (∀ x ∈ xs, f x = if p x then .ok (g x) else .error e) →
      xs.mapM f = if xs.all p then .ok (xs.map g) else .error e := by
  intro xs
  induction xs with
  | nil => intro _; rfl
  | cons x xs ih =>
    intro h
    rw [List.forall_mem_cons] at h
    rw [List.mapM_cons, h.1, ih h.2, List.all_cons]
    cases p x with
    | false => rfl
    | true => cases xs.all p <;> rfl

theorem returns_mapM {f : α → Except ε β} {xs : List α} (h : ∀ x ∈ xs, Returns (f x)) :
    Returns (xs.mapM f) := by
  cases hxs : xs.mapM f with
  | ok ys => exact returns_ok ys
  | error e =>
    obtain ⟨x, hx, hfx⟩ := mapM_eq_error hxs
    exact absurd (hfx ▸ h x hx) (not_returns_error e)

/-! ## Filters -/

variable {test : α → Except Fault Bool}

theorem filterE_eq_ok {t : α → Bool} : ∀ {xs ys : List α},
    (∀ x ∈ xs, ∀ b, test x = .ok b → b = t x) → filterE test xs = .ok ys → ys = xs.filter t := by
  intro xs
  induction xs with
  | nil =>
    rintro ys - ⟨⟩
    rfl
  | cons x xs ih =>
    intro ys hall h
    obtain ⟨b, hb, h⟩ := bind_eq_ok.1 h
    obtain ⟨zs, hzs, h⟩ := bind_eq_ok.1 h
    cases h
    rw [List.filter_cons, ← hall x List.mem_cons_self b hb,
      ← ih (fun y hy => hall y (List.mem_cons_of_mem x hy)) hzs]

/-- A filter goes through a list on which every test comes out well. -/
theorem exists_filterE : ∀ {xs : List α}, (∀ x ∈ xs, ∃ b, test x = .ok b) →
    ∃ ys, filterE test xs = .ok ys := by
  intro xs
  induction xs with
  | nil => exact fun _ => ⟨[], rfl⟩
  | cons x xs ih =>
    intro hall
    obtain ⟨b, hb⟩ := hall x List.mem_cons_self
    obtain ⟨ys, hys⟩ := ih fun y hy => hall y (List.mem_cons_of_mem x hy)
    exact ⟨_, by rw [filterE, hb, ok_bind, hys, ok_bind, pure_eq]⟩

theorem filterE_of_forall {t : α → Bool} {xs : List α} (h : ∀ x ∈ xs, test x = .ok (t x)) :
    filterE test xs = .ok (xs.filter t) := by
  obtain ⟨ys, hys⟩ := exists_filterE fun x hx => ⟨t x, h x hx⟩
  rw [hys, filterE_eq_ok (fun x hx b hb => Except.ok.inj (hb.symm.trans (h x hx))) hys]

theorem failsWith_filterE {P : Fault → Prop} (h : ∀ x, FailsWith P (test x)) (xs : List α) :
    FailsWith P (filterE test xs) := by
  induction xs with
  | nil => exact failsWith_ok []
  | cons x xs ih => exact (h x).bind fun _ _ => ih.bind fun _ _ => failsWith_ok _

/-- A filter by two tests in a row is two filters in a row, if all of them stop at the same fault. -/
theorem filterE_filterE {first second : α → Except Fault Bool} {f : Fault}
    (htest : ∀ x, test x = do if ← first x then second x else return false)
    (hfirst : ∀ x, FailsWith (· = f) (first x)) (hsecond : ∀ x, FailsWith (· = f) (second x))
    (xs : List α) : filterE test xs = filterE first xs >>= filterE second := by
  induction xs with
  | nil => rfl
  | cons x xs ih =>
    rw [filterE, filterE, htest, ih]
    cases hx : first x with
    | error e => rfl
    | ok b =>
      cases hrest : filterE first xs with
      | error e =>
        -- Here the second test of `x` comes before the first ones of the others.
        obtain rfl := failsWith_filterE hfirst xs e hrest
        cases b with
        | false => rfl
        | true =>
          show (second x >>= fun _ => _) = _
          cases hy : second x with
          | error e' =>
            obtain rfl := hsecond x e' hy
            rfl
          | ok b => rfl
      | ok ys =>
        cases b with
        | false =>
          show (filterE second ys >>= fun kept => _) = filterE second ys
          cases filterE second ys <;> rfl
        | true => rfl

theorem returns_of_filterE : ∀ {xs : List α}, Returns (filterE test xs) →
    ∀ x ∈ xs, Returns (test x) := by
  intro xs
  induction xs with
  | nil => exact fun _ x hx => absurd hx List.not_mem_nil
  | cons y ys ih =>
    intro h x hx
    obtain ⟨b, hb, h⟩ := h.of_bind
    obtain ⟨zs, hzs, -⟩ := h.of_bind
    obtain rfl | hx := List.mem_cons.1 hx
    · exact ⟨b, hb⟩
    · exact ih ⟨zs, hzs⟩ x hx

end KnowledgeGraph.Except
