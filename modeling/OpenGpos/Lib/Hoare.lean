/-
  OpenGpos.Lib.Hoare — partial correctness for state computations that may fail:
  `Triple P x Q` says that `x` from a state in `P`, if it returns, returns an `a` and a
  state in `Q a`. One rule for each construct of the monad; a loop is an induction on its
  fuel that uses them.
-/
import Mathlib

namespace OpenGpos.Lib.Hoare

variable {σ ε α β : Type}

def Triple (P : σ → Prop) (x : StateT σ (Except ε) α) (Q : α → σ → Prop) : Prop :=
  ∀ s, P s → ∀ a s', x s = .ok (a, s') → Q a s'

variable {P P' : σ → Prop} {Q Q' : α → σ → Prop}

theorem Triple.pure {a : α} (h : ∀ s, P s → Q a s) : Triple P (Pure.pure a : StateT σ (Except ε) α) Q := by
  intro s hs b s' e
  cases e; exact h s hs

theorem Triple.bind {R : α → σ → Prop} {S : β → σ → Prop} {x : StateT σ (Except ε) α} {f : α → StateT σ (Except ε) β}
    (hx : Triple P x R) (hf : ∀ a, Triple (R a) (f a) S) : Triple P (x >>= f) S := by
  intro s hs b s' e
  have e' : ((x s).bind fun r => f r.1 r.2) = .ok (b, s') := e
  cases hr : x s with
  | error err => rw [hr] at e'; cases e'
  | ok r => rw [hr] at e'; exact hf r.1 r.2 (hx s hs r.1 r.2 hr) b s' e'

/-- The rest of a computation that first looks at the state. -/
theorem Triple.get_bind {S : β → σ → Prop} {f : σ → StateT σ (Except ε) β}
    (hf : ∀ t, P t → Triple (fun s => s = t) (f t) S) : Triple P (get >>= f) S :=
  fun s hs b s' e => hf s hs s rfl b s' e

theorem Triple.modify {g : σ → σ} {Q : PUnit → σ → Prop} (h : ∀ s, P s → Q ⟨⟩ (g s)) :
    Triple P (modify g : StateT σ (Except ε) PUnit) Q := by
  intro s hs b s' e
  cases e; exact h s hs

theorem Triple.conseq {x : StateT σ (Except ε) α} (h : Triple P x Q) (hp : ∀ s, P' s → P s)
    (hq : ∀ a s, Q a s → Q' a s) : Triple P' x Q' :=
  fun s hs a s' e => hq a s' (h s (hp s hs) a s' e)

theorem Triple.ite {c : Prop} [Decidable c] {x y : StateT σ (Except ε) α} (hx : c → Triple P x Q)
    (hy : ¬ c → Triple P y Q) : Triple P (if c then x else y) Q := by
  by_cases h : c
  · rw [if_pos h]; exact hx h
  · rw [if_neg h]; exact hy h

theorem Triple.dite {c : Prop} [Decidable c] {x : c → StateT σ (Except ε) α} {y : ¬ c → StateT σ (Except ε) α}
    (hx : ∀ h, Triple P (x h) Q) (hy : ∀ h, Triple P (y h) Q) : Triple P (if h : c then x h else y h) Q := by
  by_cases h : c
  · rw [dif_pos h]; exact hx h
  · rw [dif_neg h]; exact hy h

/-- A computation that never returns. -/
theorem Triple.never {x : StateT σ (Except ε) α} (h : ∀ s, P s → ∃ e, x s = .error e) : Triple P x Q := by
  intro s hs a s' e
  obtain ⟨err, he⟩ := h s hs
  rw [he] at e; cases e

end OpenGpos.Lib.Hoare
