/-
  OpenGpos.Lib.Dialogs — computations that get at the outside world by asking. A `Dialog` is the
  program alone: what it asks first, and how it goes on with each answer. `Asking` says of a
  computation in a state monad, given for every outside world, that it is one dialog in all of them;
  the rules follow the shape of the code. Whoever answers the questions of the dialog as a world does
  brings about what the computation is in that world.
-/
import Mathlib

namespace OpenGpos.Lib.Dialogs

inductive Dialog (Q A α : Type) where
  | done (a : α)
  | ask (q : Q) (k : A → Dialog Q A α)

variable {W K Q A σ τ ε δ α β : Type}

namespace Dialog

def bind : Dialog Q A α → (α → Dialog Q A β) → Dialog Q A β
  | done a, f => f a
  | ask q k, f => ask q fun a => (k a).bind f

/-- What comes of it with the answers of `r`. -/
def result (r : Q → A) : Dialog Q A α → α
  | done a => a
  | ask q k => (k (r q)).result r

/-- The questions, with the answers of `r`. -/
def asked (r : Q → A) : Dialog Q A α → List Q
  | done _ => []
  | ask q k => q :: (k (r q)).asked r

def map (f : α → β) : Dialog Q A α → Dialog Q A β
  | done a => done (f a)
  | ask q k => ask q fun a => (k a).map f

variable (r : Q → A) (d : Dialog Q A α) (f : α → Dialog Q A β)

theorem result_map (f : α → β) : (d.map f).result r = f (d.result r) := by
  induction d with
  | done a => rfl
  | ask q k ih => exact ih _

theorem asked_map (f : α → β) : (d.map f).asked r = d.asked r := by
  induction d with
  | done a => rfl
  | ask q k ih => exact congrArg (q :: ·) (ih _)

theorem result_bind : (d.bind f).result r = (f (d.result r)).result r := by
  induction d with
  | done a => rfl
  | ask q k ih => exact ih _

theorem asked_bind : (d.bind f).asked r = d.asked r ++ (f (d.result r)).asked r := by
  induction d with
  | done a => rfl
  | ask q k ih => exact congrArg (q :: ·) (ih _)

end Dialog

/-- Worlds of type `W`: what the program has of them, and what it has to ask for. -/
structure Oracle (W K Q A σ : Type) where
  known : W → K
  reply : W → Q → A
  /-- The worlds in which every question has its reply. -/
  answers : W → Prop
  /-- The questions so far, the last one first. -/
  log : σ → List Q

/-- For computations on a larger state. -/
def Oracle.on (o : Oracle W K Q A σ) (part : τ → σ) : Oracle W K Q A τ where
  known := o.known
  reply := o.reply
  answers := o.answers
  log t := o.log (part t)

variable {o : Oracle W K Q A σ}

/-- The computation is this dialog in every world. -/
structure Asking (o : Oracle W K Q A σ) (x : W → StateT σ (Except ε) α) where
  dialog : K → σ → Dialog Q A (Except ε (α × σ))
  same : ∀ w, o.answers w → ∀ s, x w s = (dialog (o.known w) s).result (o.reply w)
  log : ∀ w, o.answers w → ∀ s a s', x w s = .ok (a, s') →
    o.log s' = ((dialog (o.known w) s).asked (o.reply w)).reverse ++ o.log s

namespace Asking

/-- On to the next computation, unless there is an error. -/
def next (f : α → σ → Dialog Q A (Except ε (β × σ))) : Except ε (α × σ) → Dialog Q A (Except ε (β × σ))
  | .error e => .done (.error e)
  | .ok (a, s) => f a s

/-- A computation that asks nothing. -/
def lift (x : StateT σ (Except ε) α) (h : ∀ s a s', x s = .ok (a, s') → o.log s' = o.log s) : Asking o fun _ => x where
  dialog _ s := .done (x s)
  same _ _ _ := rfl
  log _ _ s a s' hx := h s a s' hx

def pure (a : α) : Asking o fun _ => (Pure.pure a : StateT σ (Except ε) α) :=
  lift (Pure.pure a) (by intro s a s' h; cases h; rfl)

/-- What is known of the world may be used. -/
def known {x : W → K → StateT σ (Except ε) α} (h : ∀ k, Asking o fun w => x w k) :
    Asking o fun w => x w (o.known w) where
  dialog k s := (h k).dialog k s
  same w hw s := (h _).same w hw s
  log w hw s := (h _).log w hw s

def bind {x : W → StateT σ (Except ε) α} {f : W → α → StateT σ (Except ε) β} (hx : Asking o x)
    (hf : ∀ a, Asking o fun w => f w a) : Asking o fun w => x w >>= f w where
  dialog k s := (hx.dialog k s).bind (next fun a s => (hf a).dialog k s)
  same w hw s := by
    rw [Dialog.result_bind, ← hx.same w hw]
    change (x w s).bind _ = _
    cases h : x w s with
    | error e => rfl
    | ok p => exact (hf p.1).same w hw p.2
  log w hw s b s' h := by
    rw [Dialog.asked_bind, ← hx.same w hw]
    change (x w s).bind _ = _ at h
    cases hxs : x w s with
    | error e => rw [hxs] at h; cases h
    | ok p =>
      rw [hxs] at h
      rw [(hf p.1).log w hw p.2 b s' h, hx.log w hw s p.1 p.2 hxs, List.reverse_append, List.append_assoc]
      rfl

def ite (c : Prop) [Decidable c] {x y : W → StateT σ (Except ε) α} (hx : Asking o x) (hy : Asking o y) :
    Asking o fun w => if c then x w else y w where
  dialog k s := if c then hx.dialog k s else hy.dialog k s
  same w hw s := by
    by_cases h : c
    · simp only [if_pos h]; exact hx.same w hw s
    · simp only [if_neg h]; exact hy.same w hw s
  log w hw s a s' := by
    by_cases h : c
    · simp only [if_pos h]; exact hx.log w hw s a s'
    · simp only [if_neg h]; exact hy.log w hw s a s'

/-- A computation on a part of the state; the rest may have a part in what is computed. -/
def view (part : τ → σ) (back : τ → Except ε (α × σ) → Except δ (β × τ))
    (hback : ∀ t r b t', back t r = .ok (b, t') → ∃ a s, r = .ok (a, s) ∧ o.log (part t') = o.log s)
    {x : τ → W → StateT σ (Except ε) α} (hx : ∀ t, Asking o (x t)) :
    Asking (o.on part) fun w => (fun t => back t (x t w (part t)) : StateT τ (Except δ) β) where
  dialog k t := ((hx t).dialog k (part t)).map (back t)
  same w hw t := by
    rw [Dialog.result_map]
    exact congrArg (back t) ((hx t).same w hw (part t))
  log w hw t b t' h := by
    rw [Dialog.asked_map]
    obtain ⟨a, s, hs, hl⟩ := hback t _ b t' h
    exact hl.trans ((hx t).log w hw (part t) a s hs)

end Asking

end OpenGpos.Lib.Dialogs
