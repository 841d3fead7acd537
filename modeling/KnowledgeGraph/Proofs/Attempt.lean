import KnowledgeGraph.Attempt

/-!
# Runs of attempts

What an attempt does when it is run, step by step (`runOn_bind` and its companions), and which
properties of the state it keeps (`Keeps`). A property that every step keeps is kept by the whole
attempt, also when it stops at a fault.
-/

namespace KnowledgeGraph.Attempt

variable {σ α β : Type}

/-! ## Steps -/

@[simp] theorem runOn_pure (a : α) (s : σ) : (pure a : Attempt σ α).runOn s = (.ok a, s) := rfl

@[simp] theorem runOn_throw (f : Fault) (s : σ) :
    (throw f : Attempt σ α).runOn s = (.error f, s) := rfl

@[simp] theorem runOn_get (s : σ) : (get : Attempt σ σ).runOn s = (.ok s, s) := rfl

@[simp] theorem runOn_set (s t : σ) : (set t : Attempt σ Unit).runOn s = (.ok (), t) := rfl

@[simp] theorem runOn_modify (g : σ → σ) (s : σ) :
    (modify g : Attempt σ Unit).runOn s = (.ok (), g s) := rfl

@[simp] theorem runOn_lift (e : Except Fault α) (s : σ) :
    (liftM e : Attempt σ α).runOn s = (e, s) := rfl

/-- The second step runs on the state that the first one leaves, unless the first one stops. -/
theorem runOn_bind (x : Attempt σ α) (g : α → Attempt σ β) (s : σ) :
    (x >>= g).runOn s = match x.runOn s with
      | (.ok a, t) => (g a).runOn t
      | (.error f, t) => (.error f, t) := by
  unfold runOn ExceptT.run StateT.run
  simp only [bind, ExceptT.bind, ExceptT.mk, StateT.bind, ExceptT.bindCont]
  rcases (x s : Except Fault α × σ) with ⟨_ | a, t⟩ <;> rfl

/-- Where a bind after a step without state stops, the state has not changed yet or it is the second
step that stops. -/
theorem lift_bind_error {e : Except Fault α} {g : α → Attempt σ β} {f : Fault} {s t : σ}
    (h : ((liftM e : Attempt σ α) >>= g).runOn s = (.error f, t)) :
    t = s ∨ ∃ a, e = .ok a ∧ (g a).runOn s = (.error f, t) := by
  rw [runOn_bind, runOn_lift] at h
  cases e with
  | error e => exact .inl (congrArg Prod.snd h).symm
  | ok a => exact .inr ⟨a, rfl, h⟩

/-- An attempt whose value is only written down stops where the attempt does. -/
theorem bind_pure_error {x : Attempt σ α} {g : α → β} {f : Fault} {s t : σ}
    (h : (x >>= fun a => pure (g a)).runOn s = (.error f, t)) : x.runOn s = (.error f, t) := by
  rw [runOn_bind] at h
  rcases hx : x.runOn s with ⟨e | a, u⟩
  · simp only [hx, Prod.mk.injEq, Except.error.injEq] at h
    rw [h.1, h.2]
  · simp only [hx, runOn_pure, Prod.mk.injEq, reduceCtorEq, false_and] at h

/-- A bind comes out well when both steps do, the second one on the state that the first one
leaves. -/
theorem bind_eq_ok {x : Attempt σ α} {g : α → Attempt σ β} {b : β} {s t : σ} :
    (x >>= g).runOn s = (.ok b, t) ↔
      ∃ a u, x.runOn s = (.ok a, u) ∧ (g a).runOn u = (.ok b, t) := by
  rw [runOn_bind]
  rcases x.runOn s with ⟨e | a, u⟩
  · exact ⟨nofun, nofun⟩
  · exact ⟨fun h => ⟨a, u, rfl, h⟩, fun ⟨_, _, hx, h⟩ => by cases hx; exact h⟩

theorem lift_bind_eq_ok {e : Except Fault α} {g : α → Attempt σ β} {b : β} {s t : σ} :
    ((liftM e : Attempt σ α) >>= g).runOn s = (.ok b, t) ↔
      ∃ a, e = .ok a ∧ (g a).runOn s = (.ok b, t) := by
  rw [runOn_bind, runOn_lift]
  cases e with
  | error f => exact ⟨nofun, nofun⟩
  | ok a => exact ⟨fun h => ⟨a, rfl, h⟩, fun ⟨_, ha, h⟩ => by cases ha; exact h⟩

/-- What is done last makes no difference to the state if it leaves every state as it is. -/
theorem runOn_bind_snd {x : Attempt σ α} {g : α → Attempt σ β}
    (hg : ∀ a t, ((g a).runOn t).2 = t) (s : σ) : ((x >>= g).runOn s).2 = (x.runOn s).2 := by
  rw [runOn_bind]
  rcases x.runOn s with ⟨e | a, t⟩
  · rfl
  · exact hg a t

theorem discard_eq (x : Attempt σ α) : discard x = (x >>= fun _ => pure PUnit.unit) := by
  unfold Functor.discard Functor.mapConst
  show (fun _ => PUnit.unit) <$> x = _
  exact map_eq_pure_bind _ _

/-! ## What attempts keep -/

/-- The attempt keeps a property of the state, also when it stops at a fault. -/
def Keeps (I : σ → Prop) (x : Attempt σ α) : Prop := ∀ s, I s → I (x.runOn s).2

variable {I : σ → Prop}

theorem keeps_pure (a : α) : Keeps I (pure a) := fun _ hs => hs

theorem keeps_throw (f : Fault) : Keeps I (throw f : Attempt σ α) := fun _ hs => hs

theorem keeps_get : Keeps I get := fun _ hs => hs

theorem keeps_lift (e : Except Fault α) : Keeps I (liftM e) := fun _ hs => hs

theorem keeps_set {t : σ} (ht : I t) : Keeps I (set t) := fun _ _ => ht

theorem keeps_modify {g : σ → σ} (hg : ∀ s, I s → I (g s)) : Keeps I (modify g) :=
  fun s hs => hg s hs

theorem Keeps.bind {x : Attempt σ α} {g : α → Attempt σ β} (hx : Keeps I x)
    (hg : ∀ a, Keeps I (g a)) : Keeps I (x >>= g) := by
  intro s hs
  rw [runOn_bind]
  have ht := hx s hs
  rcases hrun : x.runOn s with ⟨e | a, t⟩
  · rw [hrun] at ht
    exact ht
  · rw [hrun] at ht
    exact hg a t ht

theorem Keeps.discard {x : Attempt σ α} (hx : Keeps I x) : Keeps I (discard x) := by
  rw [discard_eq]
  exact hx.bind fun _ => keeps_pure _

theorem keeps_lift_bind {e : Except Fault α} {g : α → Attempt σ β}
    (hg : ∀ a, e = .ok a → Keeps I (g a)) : Keeps I ((liftM e : Attempt σ α) >>= g) := by
  intro s hs
  rw [runOn_bind, runOn_lift]
  cases e with
  | error f => exact hs
  | ok a => exact hg a rfl s hs

theorem keeps_get_bind {g : σ → Attempt σ β} (hg : ∀ s, I s → I ((g s).runOn s).2) :
    Keeps I (get >>= g) := by
  intro s hs
  rw [runOn_bind, runOn_get]
  exact hg s hs

/-- A bind keeps what its first step keeps, if the second one keeps it for every value that the first
one can return. -/
theorem Keeps.bind_of {P : α → Prop} {x : Attempt σ α} {g : α → Attempt σ β} (hx : Keeps I x)
    (hvalue : ∀ s, I s → ∀ a, (x.runOn s).1 = .ok a → P a) (hg : ∀ a, P a → Keeps I (g a)) :
    Keeps I (x >>= g) := by
  intro s hs
  rw [runOn_bind]
  have ht := hx s hs
  have ha := hvalue s hs
  rcases hrun : x.runOn s with ⟨e | a, t⟩
  · rw [hrun] at ht
    exact ht
  · rw [hrun] at ht ha
    exact hg a (ha a rfl) t ht

theorem keeps_forM {as : List α} {g : α → Attempt σ PUnit} (hg : ∀ a ∈ as, Keeps I (g a)) :
    Keeps I (as.forM g) := by
  induction as with
  | nil => exact keeps_pure _
  | cons a as ih =>
    exact (hg a List.mem_cons_self).bind fun _ => ih fun b hb => hg b (List.mem_cons_of_mem a hb)

end KnowledgeGraph.Attempt
