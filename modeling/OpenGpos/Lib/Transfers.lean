/-
  OpenGpos.Lib.Transfers — engines that copy on their own, side by side. A job is a list of beats;
  an engine fetches the element of each in turn and delivers it later, as far behind as it likes.
  Jobs that keep apart (none writes what another reads or writes, nor what itself is still to read)
  do not see each other: whatever the order of the fetches and deliveries, the memory is on its way
  to the one that the jobs leave when each runs alone, in the order in which they began (`Settles`).
-/
import Mathlib

namespace OpenGpos.Lib.Transfers

open Function (update)

variable {A B C : Type}

/-! ## Jobs -/

/-- One element: from where to where. -/
structure Beat (A : Type) where
  src : A
  dst : A
  deriving DecidableEq

abbrev Job (A : Type) := List (Beat A)

def Reads (j : Job A) (a : A) : Prop := a ∈ j.map Beat.src
def Writes (j : Job A) (a : A) : Prop := a ∈ j.map Beat.dst

/-- Neither job writes what the other reads or writes. -/
structure Apart (j k : Job A) : Prop where
  left : ∀ a, Writes j a → ¬Reads k a
  right : ∀ a, Writes k a → ¬Reads j a
  both : ∀ a, Writes j a → ¬Writes k a

/-- The job does not write what it reads. -/
def Clean (j : Job A) : Prop := ∀ a, Writes j a → ¬Reads j a

/-- A job under way: the elements fetched and not yet delivered, and the beats to do. -/
structure Work (A B : Type) where
  fetched : List (A × B)
  todo : Job A

namespace Work

def none : Work A B := ⟨[], []⟩

def Reads (w : Work A B) (a : A) : Prop := Transfers.Reads w.todo a
def Writes (w : Work A B) (a : A) : Prop := a ∈ w.fetched.map Prod.fst ∨ Transfers.Writes w.todo a

structure Apart (w v : Work A B) : Prop where
  left : ∀ a, w.Writes a → ¬v.Reads a
  right : ∀ a, v.Writes a → ¬w.Reads a
  both : ∀ a, w.Writes a → ¬v.Writes a

def Clean (w : Work A B) : Prop := ∀ a, w.Writes a → ¬w.Reads a

end Work

@[simp] theorem reads_nil (a : A) : ¬Reads ([] : Job A) a := List.not_mem_nil
@[simp] theorem writes_nil (a : A) : ¬Writes ([] : Job A) a := List.not_mem_nil
@[simp] theorem reads_cons (b : Beat A) (j : Job A) (a : A) : Reads (b :: j) a ↔ a = b.src ∨ Reads j a := List.mem_cons
@[simp] theorem writes_cons (b : Beat A) (j : Job A) (a : A) :
    Writes (b :: j) a ↔ a = b.dst ∨ Writes j a := List.mem_cons
@[simp] theorem none_writes (a : A) : ¬(Work.none : Work A B).Writes a := by simp [Work.none, Work.Writes]
@[simp] theorem none_reads (a : A) : ¬(Work.none : Work A B).Reads a := by simp [Work.none, Work.Reads]

variable [DecidableEq A]

/-- The job alone, one beat after the other. -/
def perform (m : A → B) : Job A → A → B
  | [] => m
  | b :: j => perform (update m b.dst (m b.src)) j

def deliverAll (m : A → B) : List (A × B) → A → B
  | [] => m
  | p :: l => deliverAll (update m p.1 p.2) l

/-- What is left of the job alone. -/
def Work.settle (w : Work A B) (m : A → B) : A → B := perform (deliverAll m w.fetched) w.todo

/-! ## What a job leaves -/

/-- Only the addresses it writes change, and they depend on what it reads only. -/
theorem perform_congr {j : Job A} {m m' : A → B} {a : A} (hr : ∀ x, Reads j x → m x = m' x)
    (ha : Writes j a ∨ m a = m' a) :
    perform m j a = perform m' j a := by
  induction j generalizing m m' with
  | nil => simpa [perform] using ha
  | cons b j ih =>
    have hb : m b.src = m' b.src := hr _ (by simp)
    apply ih
    · intro x hx
      by_cases hxd : x = b.dst
      · simp [hxd, hb]
      · simp [hxd, hr x (by simp [hx])]
    · by_cases had : a = b.dst
      · right; simp [had, hb]
      · rcases ha with ha | ha
        · left; simpa [had] using ha
        · right; simpa [had] using ha

theorem perform_frame {j : Job A} {m : A → B} {a : A} (ha : ¬Writes j a) : perform m j a = m a := by
  induction j generalizing m with
  | nil => rfl
  | cons b j ih =>
    have hab : a ≠ b.dst := fun h => ha (by simp [h])
    rw [perform, ih fun h => ha (by simp [h]), Function.update_of_ne hab]

theorem perform_append (m : A → B) (j k : Job A) : perform m (j ++ k) = perform (perform m j) k := by
  induction j generalizing m with
  | nil => rfl
  | cons b j ih => exact ih _

theorem deliverAll_frame {l : List (A × B)} {m : A → B} {a : A} (ha : a ∉ l.map Prod.fst) : deliverAll m l a = m a := by
  induction l generalizing m with
  | nil => rfl
  | cons p l ih =>
    rw [List.map_cons, List.mem_cons, not_or] at ha
    rw [deliverAll, ih ha.2, Function.update_of_ne ha.1]

theorem deliverAll_congr {l : List (A × B)} {m m' : A → B} {a : A} (ha : a ∈ l.map Prod.fst ∨ m a = m' a) :
    deliverAll m l a = deliverAll m' l a := by
  induction l generalizing m m' with
  | nil => simpa [deliverAll] using ha
  | cons p l ih =>
    apply ih
    by_cases hap : a = p.1
    · right; simp [hap]
    · simpa [hap] using ha

theorem deliverAll_append (m : A → B) (l k : List (A × B)) : deliverAll m (l ++ k) = deliverAll (deliverAll m l) k := by
  induction l generalizing m with
  | nil => rfl
  | cons p l ih => exact ih _

namespace Work

variable {w : Work A B} {m m' : A → B} {a : A}

theorem settle_frame (ha : ¬w.Writes a) : w.settle m a = m a := by
  rw [Writes, not_or] at ha
  rw [settle, perform_frame ha.2, deliverAll_frame ha.1]

theorem settle_congr (hr : ∀ x, w.Reads x → m x = m' x) (ha : w.Writes a ∨ m a = m' a) :
    w.settle m a = w.settle m' a := by
  apply perform_congr
  · exact fun x hx => deliverAll_congr (.inr (hr x hx))
  · rcases ha with (ha | ha) | ha
    · exact .inr (deliverAll_congr (.inl ha))
    · exact .inl ha
    · exact .inr (deliverAll_congr (.inr ha))

end Work

/-! ## Engines side by side -/

variable [DecidableEq C]

structure State (A B C : Type) where
  mem : A → B
  work : C → Work A B

/-- One engine fetches, or delivers. -/
inductive Step : State A B C → State A B C → Prop
  | fetch {s : State A B C} {c : C} {l : List (A × B)} {b : Beat A} {j : Job A} : s.work c = ⟨l, b :: j⟩ →
      Step s { s with work := update s.work c ⟨l ++ [(b.dst, s.mem b.src)], j⟩ }
  | deliver {s : State A B C} {c : C} {a : A} {v : B} {l : List (A × B)} {j : Job A} : s.work c = ⟨(a, v) :: l, j⟩ →
      Step s ⟨update s.mem a v, update s.work c ⟨l, j⟩⟩

/-- The memory is on its way to `f`. -/
structure Settles (f : A → B) (s : State A B C) : Prop where
  done : ∀ a, (∀ c, ¬(s.work c).Writes a) → s.mem a = f a
  due : ∀ c a, (s.work c).Writes a → (s.work c).settle s.mem a = f a
  clean : ∀ c, (s.work c).Clean
  apart : ∀ c d, c ≠ d → (s.work c).Apart (s.work d)

/-- A step of one engine leaves less to read and to write, and the same to come of it. -/
theorem Step.shrinks {s s' : State A B C} (h : Step s s') (hc : ∀ c, (s.work c).Clean) : ∃ c,
    (∀ d, d ≠ c → s'.work d = s.work d) ∧ (∀ a, (s'.work c).Reads a → (s.work c).Reads a) ∧
      (∀ a, (s'.work c).Writes a → (s.work c).Writes a) ∧ (∀ a, ¬(s.work c).Writes a → s'.mem a = s.mem a) ∧
      (s'.work c).settle s'.mem = (s.work c).settle s.mem := by
  cases h with
  | @fetch c l b j h =>
    refine ⟨c, fun d hd => Function.update_of_ne hd .., ?_, ?_, fun a _ => rfl, ?_⟩
    · intro a ha
      rw [h]
      simp only [Function.update_self, Work.Reads] at ha ⊢
      simp [ha]
    · intro a ha
      rw [h]
      simp only [Function.update_self, Work.Writes, List.map_append, List.mem_append] at ha ⊢
      simp only [List.map_cons, List.map_nil, List.mem_singleton, writes_cons] at ha ⊢
      tauto
    · -- none of the elements on the way goes where the fetch comes from
      have hsrc : b.src ∉ l.map Prod.fst := by
        intro hm
        exact hc c b.src (by rw [h]; exact .inl hm) (by rw [h]; simp [Work.Reads])
      rw [h]
      simp only [Function.update_self, Work.settle, deliverAll_append, deliverAll, perform]
      rw [deliverAll_frame hsrc]
  | @deliver c a v l j h =>
    refine ⟨c, fun d hd => Function.update_of_ne hd .., ?_, ?_, ?_, ?_⟩
    · intro x hx
      rw [h]
      simpa only [Function.update_self, Work.Reads] using hx
    · intro x hx
      rw [h]
      simp only [Function.update_self, Work.Writes, List.map_cons, List.mem_cons] at hx ⊢
      tauto
    · intro x hx
      rw [h] at hx
      exact Function.update_of_ne (fun e => hx (.inl (by simp [e]))) ..
    · rw [h]
      simp only [Function.update_self, Work.settle, deliverAll]

namespace Settles

variable {f : A → B} {s s' : State A B C}

theorem step (hs : Settles f s) (h : Step s s') : Settles f s' := by
  obtain ⟨c, hother, hreads, hwrites, hmem, hsettle⟩ := h.shrinks hs.clean
  have hr : ∀ d a, (s'.work d).Reads a → (s.work d).Reads a := by
    intro d a ha
    by_cases hd : d = c
    · subst hd; exact hreads a ha
    · rwa [hother d hd] at ha
  have hw : ∀ d a, (s'.work d).Writes a → (s.work d).Writes a := by
    intro d a ha
    by_cases hd : d = c
    · subst hd; exact hwrites a ha
    · rwa [hother d hd] at ha
  refine ⟨?_, ?_, ?_, ?_⟩
  · intro a ha
    by_cases hca : (s.work c).Writes a
    · rw [← Work.settle_frame (m := s'.mem) (ha c), hsettle]
      exact hs.due c a hca
    · rw [hmem a hca]
      apply hs.done
      intro d
      by_cases hd : d = c
      · subst hd; exact hca
      · rw [← hother d hd]; exact ha d
  · intro d a ha
    by_cases hd : d = c
    · subst hd
      rw [hsettle]
      exact hs.due d a (hwrites a ha)
    · rw [hother d hd] at ha ⊢
      rw [← hs.due d a ha]
      apply Work.settle_congr _ (.inl ha)
      intro x hx
      exact hmem x fun hcx => (hs.apart c d (Ne.symm hd)).left x hcx hx
  · exact fun d a ha hb => hs.clean d a (hw d a ha) (hr d a hb)
  · intro d e hde
    have hap := hs.apart d e hde
    exact ⟨fun a ha hb => hap.left a (hw d a ha) (hr e a hb), fun a ha hb => hap.right a (hw e a ha) (hr d a hb),
      fun a ha hb => hap.both a (hw d a ha) (hw e a hb)⟩

/-- A job begins on an engine with nothing to do. -/
theorem start (hs : Settles f s) {c : C} (hc : s.work c = Work.none) {j : Job A} (hj : Clean j)
    (ha : ∀ d, d ≠ c → (⟨[], j⟩ : Work A B).Apart (s.work d)) :
    Settles (perform f j) { s with work := update s.work c ⟨[], j⟩ } := by
  have hwj : ∀ a, (⟨[], j⟩ : Work A B).Writes a ↔ Writes j a := by simp [Work.Writes]
  refine ⟨?_, ?_, ?_, ?_⟩
  · intro a h
    have hca : ¬Writes j a := by simpa [hwj] using h c
    rw [perform_frame hca]
    apply hs.done
    intro d
    by_cases hd : d = c
    · rw [hd, hc]; exact none_writes a
    · simpa [hd] using h d
  · intro d a h
    dsimp only at h ⊢
    by_cases hd : d = c
    · subst hd
      rw [Function.update_self] at h ⊢
      apply perform_congr _ (.inl ((hwj a).mp h))
      intro x hx
      apply hs.done
      intro e
      by_cases he : e = d
      · rw [he, hc]; exact none_writes x
      · exact fun hex => (ha e he).right x hex hx
    · simp only [Function.update_of_ne hd] at h ⊢
      rw [perform_frame fun hja => (ha d hd).both a ((hwj a).mpr hja) h]
      exact hs.due d a h
  · intro d
    dsimp only
    by_cases hd : d = c
    · rw [hd, Function.update_self]
      exact fun a hwa hra => hj a ((hwj a).mp hwa) hra
    · rw [Function.update_of_ne hd]
      exact hs.clean d
  · intro d e hde
    dsimp only
    by_cases hd : d = c
    · subst hd
      rw [Function.update_self, Function.update_of_ne (Ne.symm hde)]
      exact ha e (Ne.symm hde)
    · by_cases he : e = c
      · subst he
        rw [Function.update_self, Function.update_of_ne hd]
        have hap := ha d hd
        exact ⟨hap.right, hap.left, fun a h h' => hap.both a h' h⟩
      · rw [Function.update_of_ne hd, Function.update_of_ne he]
        exact hs.apart d e hde

omit [DecidableEq C] in
/-- A store where no engine reads or writes. -/
theorem store (hs : Settles f s) {a : A} (v : B) (hr : ∀ c, ¬(s.work c).Reads a) (hw : ∀ c, ¬(s.work c).Writes a) :
    Settles (update f a v) { s with mem := update s.mem a v } := by
  refine ⟨?_, ?_, hs.clean, hs.apart⟩
  · intro x hx
    by_cases hxa : x = a
    · simp [hxa]
    · simpa [hxa] using hs.done x hx
  · intro c x hx
    have hxa : x ≠ a := fun h => hw c (h ▸ hx)
    rw [Function.update_of_ne hxa, ← hs.due c x hx]
    apply Work.settle_congr _ (.inl hx)
    intro y hy
    have hya : y ≠ a := fun h => hr c (h ▸ hy)
    exact Function.update_of_ne hya ..

end Settles

end OpenGpos.Lib.Transfers
