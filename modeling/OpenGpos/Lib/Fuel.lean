/-
  OpenGpos.Lib.Fuel — computations that take a fuel. `Settles f r`: with enough fuel `f`
  answers `r`, whatever the fuel. A loop that stops is one that settles on an answer
  other than "out of fuel"; a loop that never stops gives "out of fuel" for every fuel.
  `EndsIn next n o` bounds how often a loop can go on that follows `next`, and `Always next P s`
  says what holds as long as it goes on, whether it ends or not.
-/
import Mathlib

namespace OpenGpos.Lib.Fuel

variable {α β : Type}

def Settles (f : Nat → α) (r : α) : Prop := ∃ n, ∀ m, n ≤ m → f m = r

theorem settles_const (r : α) : Settles (fun _ => r) r := ⟨0, fun _ _ => rfl⟩

theorem Settles.unique {f : Nat → α} {r r' : α} (h : Settles f r) (h' : Settles f r') : r = r' := by
  obtain ⟨n, hn⟩ := h
  obtain ⟨n', hn'⟩ := h'
  rw [← hn (max n n') (by omega), hn' (max n n') (by omega)]

/-- A loop body that runs `f` on one unit of fuel less. -/
theorem Settles.of_succ {f : Nat → α} {r : α} (h : Settles (fun n => f (n + 1)) r) : Settles f r := by
  obtain ⟨n, hn⟩ := h
  refine ⟨n + 1, fun m hm => ?_⟩
  obtain ⟨k, rfl⟩ := Nat.exists_eq_add_one_of_ne_zero (show m ≠ 0 by omega)
  exact hn k (by omega)

/-- Sequencing: once the first computation settled, only the rest matters. -/
theorem Settles.bind {f : Nat → α} {r : α} (g : Nat → α → β) {q : β} (h : Settles f r)
    (h' : Settles (fun n => g n r) q) : Settles (fun n => g n (f n)) q := by
  obtain ⟨n, hn⟩ := h
  obtain ⟨n', hn'⟩ := h'
  refine ⟨max n n', fun m hm => ?_⟩
  show g m (f m) = q
  rw [hn m (by omega)]
  exact hn' m (by omega)

theorem Settles.map {f : Nat → α} {r : α} (g : α → β) (h : Settles f r) : Settles (fun n => g (f n)) (g r) :=
  h.bind (fun _ x => g x) (settles_const _)

/-- Following `next` from `o` comes to an end within `n` steps. -/
def EndsIn (next : α → Option α) : Nat → Option α → Prop
  | 0, o => o = none
  | n + 1, o => EndsIn next n (o.bind next)

/-! ## What holds all the way -/

/-- `P` holds of `s` and of all that `next` leads to from it. -/
def Always (next : α → Option α) (P : α → Prop) (s : α) : Prop :=
  ∀ t, Relation.ReflTransGen (fun a b => next a = some b) s t → P t

/-- The same by following `next`, which has to end within `n` steps. -/
def alwaysIn (next : α → Option α) (P : α → Prop) [DecidablePred P] : Nat → α → Bool
  | 0, _ => false
  | n + 1, s => decide (P s) &&
    match next s with
    | some t => alwaysIn next P n t
    | none => true

section
variable {next : α → Option α} {P : α → Prop} {s t : α}

theorem Always.here (h : Always next P s) : P s := h s .refl

theorem Always.step (h : Always next P s) (hs : next s = some t) : Always next P t := fun u hu => h u (.head hs hu)

theorem Always.mono {Q : α → Prop} (hq : ∀ a, P a → Q a) (h : Always next P s) :
    Always next Q s := fun t ht => hq t (h t ht)

theorem Always.of_step (h : P s) (hs : ∀ t, next s = some t → Always next P t) : Always next P s := by
  intro u hu
  rcases Relation.ReflTransGen.cases_head hu with rfl | ⟨t, ht, hr⟩
  · exact h
  · exact hs t ht u hr

theorem alwaysIn_sound [DecidablePred P] (n : Nat) : ∀ {s : α}, alwaysIn next P n s = true → Always next P s := by
  induction n with
  | zero => intro s h; cases h
  | succ n ih =>
    intro s h
    rw [alwaysIn, Bool.and_eq_true, decide_eq_true_iff] at h
    refine .of_step h.1 fun t ht => ih ?_
    have h2 := h.2
    rw [ht] at h2
    exact h2

end

end OpenGpos.Lib.Fuel
