import KnowledgeGraph.Proofs.Attempt

/-!
# Runs side by side

Two attempts are coupled by a relation of states when they keep it: run on related states they end
in related states, and either both stop at a fault or both come out well, with related values
(`Couples`). Couplings are composed step by step, as what a single attempt keeps is (`Couples.bind`).
Where the outcome no longer matters it is enough that the states stay related (`Moves`).
-/

namespace KnowledgeGraph.Attempt

variable {σ α β γ δ : Type}

/-! ## Outcomes -/

/-- Two outcomes agree: both are faults, or they are related values. -/
def Agree (Q : α → β → Prop) : Except Fault α → Except Fault β → Prop
  | .ok a, .ok b => Q a b
  | .error _, .error _ => True
  | .ok _, .error _ | .error _, .ok _ => False

theorem agree_refl (e : Except Fault α) : Agree Eq e e := by
  cases e with
  | error _ => trivial
  | ok _ => rfl

/-! ## Couplings -/

/-- On two related states, two attempts end in related states with outcomes that agree. -/
def CouplesOn (R : σ → σ → Prop) (Q : α → β → Prop) (x : Attempt σ α) (y : Attempt σ β)
    (s t : σ) : Prop :=
  Agree Q (x.runOn s).1 (y.runOn t).1 ∧ R (x.runOn s).2 (y.runOn t).2

/-- Two attempts keep a relation of states, and their outcomes agree. -/
def Couples (R : σ → σ → Prop) (Q : α → β → Prop) (x : Attempt σ α) (y : Attempt σ β) : Prop :=
  ∀ s t, R s t → CouplesOn R Q x y s t

variable {R : σ → σ → Prop} {Q : α → β → Prop} {P : γ → δ → Prop}

theorem couples_pure {a : α} {b : β} (h : Q a b) : Couples R Q (pure a) (pure b) :=
  fun _ _ hst => ⟨h, hst⟩

theorem couples_return (a : α) (b : β) : Couples R (fun _ _ => True) (pure a) (pure b) :=
  couples_pure trivial

theorem couples_throw (f f' : Fault) : Couples R Q (throw f) (throw f') :=
  fun _ _ hst => ⟨trivial, hst⟩

theorem couples_get : Couples R R get get := fun _ _ hst => ⟨hst, hst⟩

theorem couples_lift {e : Except Fault α} {e' : Except Fault β} (h : Agree Q e e') :
    Couples R Q (liftM e) (liftM e') := fun _ _ hst => ⟨h, hst⟩

theorem couples_set {s t : σ} (h : R s t) : Couples R Eq (set s) (set t) := fun _ _ _ => ⟨rfl, h⟩

theorem couples_modify {g g' : σ → σ} (h : ∀ s t, R s t → R (g s) (g' t)) :
    Couples R Eq (modify g) (modify g') := fun s t hst => ⟨rfl, h s t hst⟩

/-- The second steps are run on the states and with the values that the first ones leave. -/
theorem CouplesOn.bind {x : Attempt σ α} {y : Attempt σ β} {g : α → Attempt σ γ}
    {h : β → Attempt σ δ} {s t : σ} (hxy : CouplesOn R Q x y s t)
    (hgh : ∀ a b, Q a b → Couples R P (g a) (h b)) : CouplesOn R P (x >>= g) (y >>= h) s t := by
  obtain ⟨hagree, hR⟩ := hxy
  unfold CouplesOn
  rw [runOn_bind, runOn_bind]
  generalize x.runOn s = outcome at hagree hR
  generalize y.runOn t = outcome' at hagree hR
  rcases outcome with ⟨e | a, s'⟩
  · rcases outcome' with ⟨e' | b, t'⟩
    · exact ⟨trivial, hR⟩
    · exact hagree.elim
  · rcases outcome' with ⟨e' | b, t'⟩
    · exact hagree.elim
    · exact hgh a b hagree s' t' hR

theorem Couples.bind {x : Attempt σ α} {y : Attempt σ β} {g : α → Attempt σ γ}
    {h : β → Attempt σ δ} (hxy : Couples R Q x y)
    (hgh : ∀ a b, Q a b → Couples R P (g a) (h b)) : Couples R P (x >>= g) (y >>= h) :=
  fun s t hst => (hxy s t hst).bind hgh

/-- A step without state that comes out the same hands its value on. -/
theorem couples_lift_bind {e e' : Except Fault α} (he : e = e') {g : α → Attempt σ γ}
    {h : α → Attempt σ δ} (hgh : ∀ a, e = .ok a → Couples R P (g a) (h a)) :
    Couples R P (liftM e >>= g) (liftM e' >>= h) := by
  subst he
  intro s t hst
  unfold CouplesOn
  rw [runOn_bind, runOn_bind, runOn_lift, runOn_lift]
  cases e with
  | error f => exact ⟨trivial, hst⟩
  | ok a => exact hgh a rfl s t hst

theorem couples_get_bind {g : σ → Attempt σ γ} {h : σ → Attempt σ δ}
    (hgh : ∀ s t, R s t → CouplesOn R P (g s) (h t) s t) : Couples R P (get >>= g) (get >>= h) := by
  intro s t hst
  unfold CouplesOn
  rw [runOn_bind, runOn_bind, runOn_get, runOn_get]
  exact hgh s t hst

theorem Couples.discard {x : Attempt σ α} {y : Attempt σ β} (hxy : Couples R Q x y) :
    Couples R Eq (discard x) (discard y) := by
  rw [discard_eq, discard_eq]
  exact hxy.bind fun _ _ _ => couples_pure rfl

/-- On a part of the state that the relation does not look at, only the outcomes matter. -/
theorem couples_within {τ : Type} {part : σ → τ} {replace : σ → τ → σ}
    (hR : ∀ s t a b, R s t → R (replace s a) (replace t b)) {x : Attempt τ α} {y : Attempt τ β}
    (hxy : Couples (fun _ _ => True) Q x y) :
    Couples R Q (within part replace x) (within part replace y) :=
  fun s t hst => ⟨(hxy (part s) (part t) trivial).1, hR s t _ _ hst⟩

/-! ## States alone -/

/-- Two attempts keep a relation of states, whatever comes out. -/
def Moves (R : σ → σ → Prop) (x : Attempt σ α) (y : Attempt σ β) : Prop :=
  ∀ s t, R s t → R (x.runOn s).2 (y.runOn t).2

theorem Couples.moves {x : Attempt σ α} {y : Attempt σ β} (hxy : Couples R Q x y) : Moves R x y :=
  fun s t hst => (hxy s t hst).2

theorem Couples.moves_lift {x : Attempt σ α} {y : Attempt σ β} (hxy : Couples R Q x y)
    (e : α → Except Fault γ) (e' : β → Except Fault δ) :
    Moves R (x >>= fun a => liftM (e a)) (y >>= fun b => liftM (e' b)) := by
  intro s t hst
  have hR := (hxy s t hst).2
  rw [runOn_bind, runOn_bind]
  generalize x.runOn s = outcome at hR
  generalize y.runOn t = outcome' at hR
  rcases outcome with ⟨f | a, s'⟩ <;> rcases outcome' with ⟨f' | b, t'⟩ <;> exact hR

end KnowledgeGraph.Attempt
