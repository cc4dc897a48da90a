/-
  OpenGpos.Lib.Runs — runs of a labelled transition relation. A label carries the
  operation and whatever it answered. `Guard ok Step` takes only the steps whose
  condition holds in the state they are taken in, so "every step of the run meets the
  condition" is "the run is a run of `Guard ok Step`".

  Rules: `Run.invariant` (an invariant of one step is one of the run), `Run.strengthen`
  (what every step does from a state with the invariant, every step of the run does),
  `Run.every_iff` (and exactly when, if that is known of a step) and `Run.simulate` (a
  step-by-step simulation maps runs to runs with the same labels).
-/
import Mathlib

namespace OpenGpos.Lib.Runs

variable {S T L : Type}

inductive Run (Step : S → L → S → Prop) : S → List L → S → Prop
  | nil (s : S) : Run Step s [] s
  | cons {s t u : S} {l : L} {ls : List L} : Step s l t → Run Step t ls u → Run Step s (l :: ls) u

/-- The steps of `Step` whose condition holds. -/
def Guard (ok : S → L → Prop) (Step : S → L → S → Prop) (s : S) (l : L) (t : S) : Prop := ok s l ∧ Step s l t

variable {Step : S → L → S → Prop} {ok : S → L → Prop}

theorem Run.append {s t u : S} {ls ls' : List L} (h : Run Step s ls t) (h' : Run Step t ls' u) :
    Run Step s (ls ++ ls') u := by
  induction h with
  | nil => exact h'
  | cons hs _ ih => exact .cons hs (ih h')

theorem Run.split {s u : S} {ls ls' : List L} (h : Run Step s (ls ++ ls') u) :
    ∃ t, Run Step s ls t ∧ Run Step t ls' u := by
  induction ls generalizing s with
  | nil => exact ⟨s, .nil s, h⟩
  | cons l ls ih =>
    cases h with
    | cons hs hr =>
      obtain ⟨t, h1, h2⟩ := ih hr
      exact ⟨t, .cons hs h1, h2⟩

theorem Run.mono {Step' : S → L → S → Prop} (hm : ∀ s l t, Step s l t → Step' s l t) {s t : S} {ls : List L}
    (h : Run Step s ls t) : Run Step' s ls t := by
  induction h with
  | nil => exact .nil _
  | cons hs _ ih => exact .cons (hm _ _ _ hs) ih

/-- A guarded run is a run. -/
theorem Run.unguard {s t : S} {ls : List L} (h : Run (Guard ok Step) s ls t) : Run Step s ls t :=
  h.mono fun _ _ _ hs => hs.2

/-- What a guarded run says of its labels. -/
theorem Run.guard_mem {P : L → Prop} {s t : S} {ls : List L} (h : Run (Guard (fun _ l => P l) Step) s ls t) :
    ∀ l ∈ ls, P l := by
  induction h with
  | nil => exact fun l hl => nomatch hl
  | cons hs _ ih => exact List.forall_mem_cons.mpr ⟨hs.1, ih⟩

theorem Run.invariant {Inv : S → Prop} (hstep : ∀ s l t, Inv s → Step s l t → Inv t) {s t : S} {ls : List L}
    (h : Run Step s ls t) (hs : Inv s) : Inv t := by
  induction h with
  | nil => exact hs
  | cons h1 _ ih => exact ih (hstep _ _ _ hs h1)

/-- Under an invariant, the steps of a run are more than they were. -/
theorem Run.strengthen {Step' : S → L → S → Prop} {Inv : S → Prop}
    (hstep : ∀ s l t, Inv s → Step s l t → Step' s l t ∧ Inv t) {s t : S} {ls : List L} (h : Run Step s ls t) (hs : Inv s) :
    Run Step' s ls t := by
  induction h with
  | nil => exact .nil _
  | cons h1 _ ih =>
    obtain ⟨h1', ht⟩ := hstep _ _ _ hs h1
    exact .cons h1' (ih ht)

/-- Where what is asked of a step holds exactly for some labels, it holds of every step of a run
    exactly if all its labels are such. -/
theorem Run.every_iff {P : S → L → S → Prop} {C : L → Prop} {Inv : S → Prop}
    (hstep : ∀ s l t, Inv s → Step s l t → (P s l t ↔ C l) ∧ Inv t) {s t : S} {ls : List L} (h : Run Step s ls t) (hs : Inv s) :
    Run (fun s l t => Step s l t ∧ P s l t) s ls t ↔ ∀ l ∈ ls, C l := by
  constructor
  · intro hc
    clear h
    induction hc with
    | nil => intro l hl; cases hl
    | cons h1 _ ih =>
      obtain ⟨hp, ht⟩ := hstep _ _ _ hs h1.1
      intro l hl
      rcases List.mem_cons.mp hl with rfl | hl
      · exact hp.mp h1.2
      · exact ih ht l hl
  · intro hc
    induction h with
    | nil => exact .nil _
    | cons h1 _ ih =>
      obtain ⟨hp, ht⟩ := hstep _ _ _ hs h1
      exact .cons ⟨h1, hp.mpr (hc _ List.mem_cons_self)⟩ (ih ht fun l hl => hc l (List.mem_cons_of_mem _ hl))

theorem Run.simulate {Step' : T → L → T → Prop} {R : S → T → Prop}
    (hstep : ∀ s l s' t, R s t → Step s l s' → ∃ t', Step' t l t' ∧ R s' t') {s s' : S} {ls : List L}
    (h : Run Step s ls s') : ∀ t, R s t → ∃ t', Run Step' t ls t' ∧ R s' t' := by
  induction h with
  | nil s => exact fun t hr => ⟨t, .nil t, hr⟩
  | cons hs _ ih =>
    intro t hr
    obtain ⟨t1, h1, hr1⟩ := hstep _ _ _ _ hr hs
    obtain ⟨t2, h2, hr2⟩ := ih t1 hr1
    exact ⟨t2, .cons h1 h2, hr2⟩

/-- A run under other labels that match its own one by one. -/
theorem Run.relabel {M : Type} {Step' : S → M → S → Prop} {Rel : L → M → Prop} {s t : S} {ls : List L}
    (h : Run (fun s l t => ∃ m, Rel l m ∧ Step' s m t) s ls t) : ∃ ms, List.Forall₂ Rel ls ms ∧ Run Step' s ms t := by
  induction h with
  | nil s => exact ⟨[], .nil, .nil s⟩
  | cons hs _ ih =>
    obtain ⟨m, hm, hs⟩ := hs
    obtain ⟨ms, hms, hr⟩ := ih
    exact ⟨m :: ms, .cons hm hms, .cons hs hr⟩

end OpenGpos.Lib.Runs
