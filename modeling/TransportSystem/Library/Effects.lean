import Mathlib.Control.Monad.Basic

/-!
Computations that change a state and may fail, compared with a relation on an
abstract state. The relation says both what a computation may return and what
it must return; failures are only required to be admissible.
-/

namespace TransportSystem.Library.Effects

variable {S T E A B : Type} {C : S → T → Prop} {X : E → Prop}

theorem run_bind_of_ok {m : StateT S (Except E) B} {f : B → StateT S (Except E) A}
    {s s' : S} {b : B}
    (h : m s = .ok (b, s')) : (m >>= f) s = f b s' := by
  change (m s >>= fun p => f p.1 p.2) = f b s'
  rw [h]
  rfl

theorem run_bind_of_error {m : StateT S (Except E) B} {f : B → StateT S (Except E) A}
    {s : S} {e : E}
    (h : m s = .error e) : (m >>= f) s = .error e := by
  change (m s >>= fun p => f p.1 p.2) = .error e
  rw [h]
  rfl

/-- Whatever a computation returns has a property. -/
def Ensures (m : StateT S (Except E) A) (P : A → Prop) : Prop :=
  ∀ s a s', m s = .ok (a, s') → P a

namespace Ensures

variable {P : A → Prop}

theorem pure {a : A} (h : P a) : Ensures (Pure.pure a : StateT S (Except E) A) P := by
  rintro s a' s' ⟨⟩
  exact h

theorem throw {e : E} : Ensures (MonadExcept.throw e : StateT S (Except E) A) P := by
  rintro s a s' ⟨⟩

theorem bind {m : StateT S (Except E) B} {f : B → StateT S (Except E) A} {R : B → Prop}
    (hm : Ensures m R) (hf : ∀ b, R b → Ensures (f b) P) : Ensures (m >>= f) P := by
  intro s a s' h
  change (m s >>= fun p => f p.1 p.2) = .ok (a, s') at h
  cases hms : m s with
  | error e =>
      rw [hms] at h
      cases h
  | ok p =>
      rw [hms] at h
      exact hf p.1 (hm s p.1 p.2 hms) p.2 a s' h

theorem after {m : StateT S (Except E) B} {f : B → StateT S (Except E) A}
    (hf : ∀ b, Ensures (f b) P) : Ensures (m >>= f) P :=
  bind (R := fun _ => True) (fun _ _ _ _ => trivial) fun b _ => hf b

end Ensures

/-- Whatever a computation fails with has a property. -/
def Fails (m : StateT S (Except E) A) (X : E → Prop) : Prop :=
  ∀ s e, m s = .error e → X e

namespace Fails

variable {X : E → Prop}

theorem pure {a : A} : Fails (Pure.pure a : StateT S (Except E) A) X := by
  rintro s e ⟨⟩

theorem throw {e : E} (h : X e) : Fails (MonadExcept.throw e : StateT S (Except E) A) X := by
  rintro s e' ⟨⟩
  exact h

theorem of_ok {m : StateT S (Except E) A} (h : ∀ s, ∃ p, m s = .ok p) : Fails m X := by
  intro s e hms
  obtain ⟨p, hp⟩ := h s
  rw [hp] at hms
  cases hms

/-- Two computations in a row. The second may use what the first returns. -/
theorem bind_of {m : StateT S (Except E) B} {f : B → StateT S (Except E) A} {R : B → Prop}
    (hm : Fails m X) (hr : Ensures m R) (hf : ∀ b, R b → Fails (f b) X) : Fails (m >>= f) X := by
  intro s e h
  change (m s >>= fun p => f p.1 p.2) = .error e at h
  cases hms : m s with
  | error e' =>
      rw [hms] at h
      cases h
      exact hm s e hms
  | ok p =>
      rw [hms] at h
      exact hf p.1 (hr s p.1 p.2 hms) p.2 e h

theorem bind {m : StateT S (Except E) B} {f : B → StateT S (Except E) A} (hm : Fails m X)
    (hf : ∀ b, Fails (f b) X) : Fails (m >>= f) X :=
  bind_of (R := fun _ => True) hm (fun _ _ _ _ => trivial) fun b _ => hf b

end Fails

/-- The outcome of a computation returns exactly the values and abstract states
that `Q` allows, where `C` couples concrete and abstract states, and fails only
with the failures of `X`. -/
structure Yields (C : S → T → Prop) (X : E → Prop) (outcome : Except E (A × S))
    (Q : A → T → Prop) : Prop where
  sound : ∀ a s, outcome = .ok (a, s) → ∃ t, C s t ∧ Q a t
  complete : ∀ a t, Q a t → ∃ s, outcome = .ok (a, s) ∧ C s t
  fails : ∀ e, outcome = .error e → X e

namespace Yields

variable {outcome : Except E (A × S)} {Q Q' : A → T → Prop}

theorem congr (h : Yields C X outcome Q) (hQ : ∀ a t, Q a t ↔ Q' a t) :
    Yields C X outcome Q' where
  sound a s ha := by
    obtain ⟨t, hC, hq⟩ := h.sound a s ha
    exact ⟨t, hC, (hQ a t).mp hq⟩
  complete a t hq := h.complete a t ((hQ a t).mpr hq)
  fails := h.fails

theorem ok {a : A} {s : S} {t : T} (hC : C s t) :
    Yields C X (.ok (a, s)) fun a' t' => a' = a ∧ t' = t where
  sound a' s' h := by
    cases h
    exact ⟨t, hC, rfl, rfl⟩
  complete a' t' h := by
    obtain ⟨rfl, rfl⟩ := h
    exact ⟨s, rfl, hC⟩
  fails e h := by cases h

theorem pure {a : A} {s : S} {t : T} (hC : C s t) :
    Yields C X ((Pure.pure a : StateT S (Except E) A) s) fun a' t' => a' = a ∧ t' = t :=
  ok hC

theorem error {e : E} (he : X e) (hQ : ∀ a t, ¬ Q a t) : Yields C X (.error e) Q where
  sound a s h := by cases h
  complete a t h := absurd h (hQ a t)
  fails e' h := by
    cases h
    exact he

theorem throw {e : E} {s : S} (he : X e) (hQ : ∀ a t, ¬ Q a t) :
    Yields C X ((MonadExcept.throw e : StateT S (Except E) A) s) Q :=
  error he hQ

/-- Two computations in a row. The second may use what the first has found out. -/
theorem bind {m : StateT S (Except E) A} {f : A → StateT S (Except E) B} {s : S}
    {R : A → T → B → T → Prop} (hm : Yields C X (m s) Q)
    (hf : ∀ a s' t, C s' t → Q a t → Yields C X (f a s') (R a t)) :
    Yields C X ((m >>= f) s) fun b t' => ∃ a t, Q a t ∧ R a t b t' := by
  have hbind : (m >>= f) s = (m s >>= fun p => f p.1 p.2) := rfl
  rw [hbind]
  cases hms : m s with
  | error e =>
      refine error (hm.fails e hms) ?_
      rintro b t' ⟨a, t, hq, -⟩
      obtain ⟨s', hs', -⟩ := hm.complete a t hq
      rw [hms] at hs'
      cases hs'
  | ok p =>
      obtain ⟨t, hC, hq⟩ := hm.sound p.1 p.2 hms
      have hrest := hf p.1 p.2 t hC hq
      refine ⟨fun b s' hb => ?_, ?_, hrest.fails⟩
      · obtain ⟨t', hC', hr⟩ := hrest.sound b s' hb
        exact ⟨t', hC', p.1, t, hq, hr⟩
      · rintro b t' ⟨a, t₁, hq₁, hr⟩
        obtain ⟨s', hs', hC'⟩ := hm.complete a t₁ hq₁
        rw [hms] at hs'
        cases hs'
        exact (hf a s' t₁ hC' hq₁).complete b t' hr

theorem bind_of_ok {m : StateT S (Except E) A} {f : A → StateT S (Except E) B} {s s' : S} {a : A}
    {R : B → T → Prop} (hm : m s = .ok (a, s')) (hf : Yields C X (f a s') R) :
    Yields C X ((m >>= f) s) R := by
  rwa [run_bind_of_ok hm]

end Yields

end TransportSystem.Library.Effects
