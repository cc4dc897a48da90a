/-
  OpenGpos.Lib.Traced — a computation with the list of what it accessed. `value` is what the
  computation gives and forgets the trace; `AllReads p` says that every access of it meets `p`.
  One rule for each construct: the accesses of a sequence are those of its parts
  (`allReads_bind`), those of a loop are those of its turns (`allReads_turns`).
-/
import Mathlib

namespace OpenGpos.Lib

structure Traced (R α : Type) where
  value : α
  reads : List R
  deriving DecidableEq, Repr

namespace Traced

variable {R α β : Type}

instance : Monad (Traced R) where
  pure a := ⟨a, []⟩
  bind x f := ⟨(f x.value).value, x.reads ++ (f x.value).reads⟩

/-- An access, and what it gives. -/
def access (r : R) (a : α) : Traced R α := ⟨a, [r]⟩

theorem access_bind (r : R) (a : α) (f : α → Traced R β) : (access r a >>= f) = ⟨(f a).value, r :: (f a).reads⟩ := rfl

/-- A loop of `n` turns. -/
def turns (f : Nat → α → Traced R α) : Nat → α → Traced R α
  | 0, a => pure a
  | n + 1, a => turns f n a >>= f n

def AllReads (p : R → Prop) (x : Traced R α) : Prop := ∀ r ∈ x.reads, p r

/-! ## Values -/

@[simp] theorem value_pure (a : α) : (pure a : Traced R α).value = a := rfl

@[simp] theorem value_bind (x : Traced R α) (f : α → Traced R β) : (x >>= f).value = (f x.value).value := rfl

@[simp] theorem value_access (r : R) (a : α) : (access r a).value = a := rfl

@[simp] theorem value_ite {c : Prop} [Decidable c] (x y : Traced R α) :
    (if c then x else y).value = if c then x.value else y.value :=
  apply_ite value c x y

/-- The loop's value, turn by turn. -/
theorem value_turns {f : Nat → α → Traced R α} {s : Nat → α} (h : ∀ i, (f i (s i)).value = s (i + 1)) (n : Nat) :
    (turns f n (s 0)).value = s n := by
  induction n with
  | zero => rfl
  | succ n ih =>
    rw [turns, value_bind, ih]
    exact h n

/-! ## Accesses -/

variable {p : R → Prop}

@[simp] theorem allReads_pure (a : α) : (pure a : Traced R α).AllReads p ↔ True :=
  iff_true_intro fun _ hr => absurd hr List.not_mem_nil

@[simp] theorem allReads_access (r : R) (a : α) : (access r a).AllReads p ↔ p r := List.forall_mem_singleton

@[simp] theorem allReads_bind (x : Traced R α) (f : α → Traced R β) :
    (x >>= f).AllReads p ↔ x.AllReads p ∧ (f x.value).AllReads p :=
  List.forall_mem_append

@[simp] theorem allReads_ite {c : Prop} [Decidable c] (x y : Traced R α) :
    (if c then x else y).AllReads p ↔ if c then x.AllReads p else y.AllReads p :=
  iff_of_eq (apply_ite (AllReads p) c x y)

theorem allReads_turns {f : Nat → α → Traced R α} {n : Nat} {a : α} :
    (turns f n a).AllReads p ↔ ∀ i < n, (f i (turns f i a).value).AllReads p := by
  induction n with
  | zero => exact iff_of_true ((allReads_pure a).mpr trivial) fun i hi => absurd hi (Nat.not_lt_zero i)
  | succ n ih =>
    rw [turns, allReads_bind, ih, Nat.forall_lt_succ_right]

theorem AllReads.mono {q : R → Prop} {x : Traced R α} (h : x.AllReads p) (hpq : ∀ r, p r → q r) : x.AllReads q :=
  fun r hr => hpq r (h r hr)

end Traced

end OpenGpos.Lib
