/-
  OpenGpos.Lib.TwoRuns — two runs side by side. `Twins R x y`: from states that `R` relates, `x` and
  `y` fail alike, or return the same and leave states that `R` relates. One rule for each construct of
  the monad; where both look at their states, what they see has to be the same.
-/
import Mathlib

namespace OpenGpos.Lib.TwoRuns

variable {σ τ ε α β : Type}

inductive Alike (R : σ → τ → Prop) : Except ε (α × σ) → Except ε (α × τ) → Prop
  | ok {a : α} {s : σ} {t : τ} : R s t → Alike R (.ok (a, s)) (.ok (a, t))
  | error {e : ε} : Alike R (.error e) (.error e)

def Twins (R : σ → τ → Prop) (x : StateT σ (Except ε) α) (y : StateT τ (Except ε) α) : Prop :=
  ∀ s t, R s t → Alike R (x s) (y t)

variable {R : σ → τ → Prop}

theorem Twins.pure (a : α) : Twins R (Pure.pure a : StateT σ (Except ε) α) (Pure.pure a) := fun _ _ h => .ok h

theorem Twins.bind {x : StateT σ (Except ε) α} {y : StateT τ (Except ε) α} {f : α → StateT σ (Except ε) β}
    {g : α → StateT τ (Except ε) β} (hx : Twins R x y) (hf : ∀ a, Twins R (f a) (g a)) :
    Twins R (x >>= f) (y >>= g) := by
  intro s t h
  show Alike R ((x s).bind fun r => f r.1 r.2) ((y t).bind fun r => g r.1 r.2)
  have hxy := hx s t h
  revert hxy
  generalize x s = r, y t = r'
  intro hxy
  cases hxy with
  | ok h' => exact hf _ _ _ h'
  | error => exact .error

/-- Both look at their states. -/
theorem Twins.get_bind {f : σ → StateT σ (Except ε) β} {g : τ → StateT τ (Except ε) β}
    (hf : ∀ s t, R s t → Twins R (f s) (g t)) : Twins R (get >>= f) (get >>= g) :=
  fun s t h => hf s t h s t h

theorem Twins.modify {f : σ → σ} {g : τ → τ} (h : ∀ s t, R s t → R (f s) (g t)) :
    Twins R (modify f : StateT σ (Except ε) PUnit) (modify g) :=
  fun s t hs => .ok (h s t hs)

theorem Twins.ite {c : Prop} [Decidable c] {x x' : StateT σ (Except ε) α} {y y' : StateT τ (Except ε) α}
    (h : c → Twins R x y) (h' : ¬c → Twins R x' y') : Twins R (if c then x else x') (if c then y else y') := by
  by_cases hc : c
  · rw [if_pos hc, if_pos hc]
    exact h hc
  · rw [if_neg hc, if_neg hc]
    exact h' hc

theorem Twins.dite {c : Prop} [Decidable c] {x : c → StateT σ (Except ε) α} {x' : ¬c → StateT σ (Except ε) α}
    {y : c → StateT τ (Except ε) α} {y' : ¬c → StateT τ (Except ε) α} (h : ∀ hc, Twins R (x hc) (y hc))
    (h' : ∀ hc, Twins R (x' hc) (y' hc)) : Twins R (if hc : c then x hc else x' hc) (if hc : c then y hc else y' hc) :=
    by
  by_cases hc : c
  · rw [dif_pos hc, dif_pos hc]
    exact h hc
  · rw [dif_neg hc, dif_neg hc]
    exact h' hc

theorem Twins.returns {x : StateT σ (Except ε) α} {y : StateT τ (Except ε) α} (h : Twins R x y) {s s' : σ} {t : τ}
    {a : α}
    (hst : R s t) (hx : x s = .ok (a, s')) : ∃ t', y t = .ok (a, t') ∧ R s' t' := by
  have hxy := h s t hst
  rw [hx] at hxy
  generalize hy : y t = r at hxy
  cases hxy with
  | ok h' => exact ⟨_, rfl, h'⟩

end OpenGpos.Lib.TwoRuns
