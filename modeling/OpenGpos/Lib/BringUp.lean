/-
  OpenGpos.Lib.BringUp — code that sets a device up: assignments to registers, changes of bits of
  them, and loops that wait for a bit. A `Checker` goes through such code once, with what is known of
  the device at each point. What it accepts is safe wherever the device's own steps fall (`checked`),
  ends in what was found to be known at the end, and from nowhere waits for good (`Position.ends`).
-/
import OpenGpos.Lib.Mmio

namespace OpenGpos.Lib.BringUp

open OpenGpos.Lib.Mmio

/-! ## The code -/

inductive Edit where
  /-- `r |= mask` -/
  | set (mask : UInt32)
  /-- `r &= ~mask` -/
  | clear (mask : UInt32)
  /-- `r = (r & ~mask) | v` -/
  | insert (mask v : UInt32)

def Edit.apply (v : UInt32) : Edit → UInt32
  | set mask => v ||| mask
  | clear mask => v &&& ~~~mask
  | insert mask w => (v &&& ~~~mask) ||| w

inductive Stmt (R : Type) where
  /-- `r = v` -/
  | assign (r : R) (v : UInt32)
  | edit (r : R) (e : Edit)
  /-- `while (!(r & mask));` -/
  | await (r : R) (mask : UInt32)

variable {R σ K : Type}

def Stmt.prog : Stmt R → Prog R UInt32 Unit
  | assign r v => .write r v
  | edit r e => do
    let v ← .read r
    .write r (e.apply v)
  | await r mask => .wait r fun v => v &&& mask != 0

def progs : List (Stmt R) → Prog R UInt32 Unit
  | [] => pure ()
  | st :: l => do
    st.prog
    progs l

/-! ## The checker -/

/-- Each function says what is known behind a statement, if the statement is fine. -/
structure Checker (d : Device R UInt32 σ) (K : Type) where
  Knows : K → σ → Prop
  assign : K → R → UInt32 → Option K
  edit : K → R → Edit → Option K
  await : K → R → UInt32 → Option K
  move : ∀ {k s s'}, Knows k s → d.move s s' → Knows k s'
  assign_ok : ∀ {k k' r v s}, assign k r v = some k' → Knows k s → Knows k' (d.store s r v)
  /-- The load has no effect, and the device does not change what it brings. -/
  edit_load : ∀ {k k' r e s}, edit k r e = some k' → Knows k s →
    (d.load s r).2 = s ∧ ∀ s', d.move s s' → (d.load s' r).1 = (d.load s r).1
  edit_ok : ∀ {k k' r e s}, edit k r e = some k' → Knows k s → Knows k' (d.store s r (e.apply (d.load s r).1))
  await_again : ∀ {k k' r mask s}, await k r mask = some k' → Knows k s → Knows k (d.load s r).2
  await_ok : ∀ {k k' r mask s}, await k r mask = some k' → Knows k s → (d.load s r).1 &&& mask ≠ 0 →
      Knows k' (d.load s r).2
  /-- The wait can end. -/
  await_met : ∀ {k k' r mask s}, await k r mask = some k' → Knows k s → ∃ s', Moves d s s' ∧
      (d.load s' r).1 &&& mask ≠ 0

variable {d : Device R UInt32 σ} (ch : Checker d K)

namespace Checker

def stmt (k : K) : Stmt R → Option K
  | .assign r v => ch.assign k r v
  | .edit r e => ch.edit k r e
  | .await r mask => ch.await k r mask

def check : List (Stmt R) → K → Option K
  | [], k => some k
  | st :: l, k => (ch.stmt k st).bind (check l)

end Checker

/-- Where the code is, with what is known there. -/
inductive Position (final : K) : Config R UInt32 σ Unit → Prop
  | front {l : List (Stmt R)} {k : K} {s : σ} : ch.check l k = some final → ch.Knows k s → Position final ⟨progs l, s⟩
  /-- Between the load and the store of a change. -/
  | storing {r : R} {e : Edit} {l : List (Stmt R)} {k k' : K} {s : σ} : ch.edit k r e = some k' →
      ch.check l k' = some final → ch.Knows k s → Position final ⟨.store r (e.apply (d.load s r).1) (progs l), s⟩

section
variable {ch} {final : K} {c c' : Config R UInt32 σ Unit}

theorem Position.knows (h : Position ch final c) : ∃ k, ch.Knows k c.state := by
  cases h with
  | front _ hk => exact ⟨_, hk⟩
  | storing _ _ hk => exact ⟨_, hk⟩

theorem Position.step (h : Position ch final c) (hs : Step d c c') : Position ch final c' := by
  cases h with
  | @storing r e l k k' s he hl hk =>
    cases hs with
    | store => exact .front hl (ch.edit_ok he hk)
    | @move _ _ s' hm =>
      rw [← (ch.edit_load he hk).2 s' hm]
      exact .storing he hl (ch.move hk hm)
  | @front l k s hl hk =>
    cases l with
    | nil =>
      cases hs with
      | move hm => exact .front hl (ch.move hk hm)
    | cons st l =>
      obtain ⟨k', hst, hl'⟩ := Option.bind_eq_some_iff.mp (show (ch.stmt k st).bind (ch.check l) = some final from hl)
      cases st with
      | assign r v =>
        cases hs with
        | store => exact .front hl' (ch.assign_ok hst hk)
        | move hm => exact .front hl (ch.move hk hm)
      | edit r e =>
        cases hs with
        | load =>
          show Position ch final ⟨.store r (e.apply (d.load s r).1) (progs l), (d.load s r).2⟩
          rw [(ch.edit_load hst hk).1]
          exact .storing hst hl' hk
        | move hm => exact .front hl (ch.move hk hm)
      | await r mask =>
        cases hs with
        | leave hc => exact .front hl' (ch.await_ok hst hk (by simpa using hc))
        | again => exact .front hl (ch.await_again hst hk)
        | move hm => exact .front hl (ch.move hk hm)

/-- Wherever the code has got to. -/
theorem checked {l : List (Stmt R)} {k : K} {s : σ} (h : ch.check l k = some final) (hk : ch.Knows k s)
    (hs : Steps d ⟨progs l, s⟩ c) : Position ch final c := by
  induction hs with
  | refl => exact .front h hk
  | tail _ hs ih => exact ih.step hs

/-- What is known at the end. -/
theorem Position.done (h : Position ch final c) (hd : c.prog = .done ()) : ch.Knows final c.state := by
  cases h with
  | storing => cases hd
  | @front l k s hl hk =>
    cases l with
    | nil =>
      cases hl
      exact hk
    | cons st l =>
      cases st <;> cases hd

theorem Position.ends (h : Position ch final c) : ∃ s, Steps d c ⟨.done (), s⟩ := by
  -- from the front of a statement on
  have front : ∀ (l : List (Stmt R)) {k : K} {s : σ}, ch.check l k = some final → ch.Knows k s →
      ∃ s', Steps d ⟨progs l, s⟩ ⟨.done (), s'⟩ := by
    intro l
    induction l with
    | nil => exact fun _ _ => ⟨_, .refl⟩
    | cons st l ih =>
      intro k s hl hk
      obtain ⟨k', hst, hl'⟩ := Option.bind_eq_some_iff.mp (show (ch.stmt k st).bind (ch.check l) = some final from hl)
      cases st with
      | assign r v =>
        obtain ⟨s', hrest⟩ := ih hl' (ch.assign_ok hst hk)
        exact ⟨s', .head .store hrest⟩
      | edit r e =>
        have hload := (ch.edit_load hst hk).1
        obtain ⟨s', hrest⟩ := ih hl' (ch.edit_ok hst hk)
        refine ⟨s', .head .load (.head .store ?_)⟩
        rw [hload]
        exact hrest
      | await r mask =>
        obtain ⟨s1, hm, hc⟩ := ch.await_met hst hk
        have hk1 : ch.Knows k s1 := by
          clear hc
          induction hm with
          | refl => exact hk
          | tail _ hstep ih => exact ch.move ih hstep
        obtain ⟨s', hrest⟩ := ih hl' (ch.await_ok hst hk1 hc)
        exact ⟨s', (Steps.moves hm).trans (.head (.leave (by simpa using hc)) hrest)⟩
  cases h with
  | front hl hk => exact front _ hl hk
  | storing he hl hk =>
    obtain ⟨s', hrest⟩ := front _ hl (ch.edit_ok he hk)
    exact ⟨s', .head .store hrest⟩

end

end OpenGpos.Lib.BringUp
