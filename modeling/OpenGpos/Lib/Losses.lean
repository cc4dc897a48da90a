/-
  OpenGpos.Lib.Losses — a port that loses items. Where more is pushed than popped, what is
  received is only some of the answers, in their order. An assertion about the answers still
  to be popped that holds as well when some of them are missing (`Lossy`) survives every shift,
  so the rules of `Triple` need only look at the untimed port. `Triple.must_bind` is about a
  program that waits for ever in its second part only.
-/
import OpenGpos.Lib.Flow

namespace OpenGpos.Lib.Fifo

variable {B α β σ : Type} {cap : Nat} {answer : σ → B → σ × B}

/-- `L` of what was received and will be, as far as nothing more is lost, and of the peer behind it. -/
def Upcoming (answer : σ → B → σ × B) (L : List B → σ → Prop) (tx rx : List B) (s : σ) : Prop :=
  L (rx ++ replies answer s tx) (after answer s tx)

/-- It does not matter whether items are lost. -/
def Lossy (L : List B → σ → Prop) : Prop := ∀ l l' s, l'.Sublist l → L l s → L l' s

section
variable {L L' : List B → σ → Prop} {Q : α → List B → List B → σ → Prop}

theorem Lossy.stable (hL : Lossy L) : Stable cap answer (Upcoming answer L) := by
  intro b tx rx s h
  refine hL _ _ _ ?_ h
  show (enqueue cap rx (answer s b).2 ++ replies answer (answer s b).1 tx).Sublist (rx ++ replies answer s (b :: tx))
  unfold enqueue
  split
  · rw [List.append_assoc]
    exact .refl _
  · exact (List.Sublist.refl rx).append (List.sublist_cons_self ..)

theorem Lossy.push (hL : Lossy L) (L' : List B → σ → Prop) {b : B} {k : Prog B α}
    (h : ∀ l s, L l s → L' (l ++ [(answer s b).2]) (answer s b).1) (hk : Triple cap answer (Upcoming answer L') k Q) :
    Triple cap answer (Upcoming answer L) (.push b k) Q := by
  refine .push _ hL.stable (fun tx rx s hl => ?_) hk
  unfold Upcoming
  rw [replies_append, after_append, ← List.append_assoc]
  exact h _ _ hl

theorem Lossy.pop (hL : Lossy L) (R : B → List B → σ → Prop) {k : B → Prog B α}
    (h : ∀ r l s, L (r :: l) s → R r l s) (hk : ∀ r, Triple cap answer (Upcoming answer (R r)) (k r) Q) :
    Triple cap answer (Upcoming answer L) (.pop k) Q :=
  .pop (fun r => Upcoming answer (R r)) hL.stable (fun _ _ _ _ hl => h _ _ _ hl) hk

theorem Lossy.done (hL : Lossy L) {a : α} {Q : α → List B → σ → Prop} (h : ∀ l s, L l s → Q a l s) :
    Triple cap answer (Upcoming answer L) (.done a) fun a => Upcoming answer (Q a) :=
  .done hL.stable fun _ _ _ hl => h _ _ hl

end

/-! ## A part that does not wait -/

theorem Must.mono {P Q : Config B σ α → Prop} (h : ∀ c, P c → Q c) {c : Config B σ α} (hm : Must cap answer P c) :
    Must cap answer Q c := by
  induction hm with
  | now hc => exact .now (h _ hc)
  | later hex _ ih => exact .later hex ih

theorem goes_on {p : Prog B α} {tx rx : List B} {s : σ} (hc : 0 < cap) (hd : ∀ a, p ≠ .done a)
    (hw : ¬Waits (⟨p, tx, rx, s⟩ : Config B σ α)) : ∃ c', Step cap answer ⟨p, tx, rx, s⟩ c' := by
  cases p with
  | done a => exact absurd rfl (hd a)
  | push b k => exact push_goes_on hc
  | pop k =>
    cases rx with
    | cons r rx => exact ⟨_, .pop⟩
    | nil => cases tx with
      | nil => exact absurd ⟨⟨k, rfl⟩, rfl, rfl⟩ hw
      | cons b tx => exact ⟨_, .shift⟩

/-- Before the end of its first part a program only takes the steps of that part. -/
theorem Step.unbind {p : Prog B α} {f : α → Prog B β} {tx rx : List B} {s : σ} {c : Config B σ β}
    (hd : ∀ a, p ≠ .done a) (h : Step cap answer ⟨p >>= f, tx, rx, s⟩ c) :
    ∃ c', Step cap answer ⟨p, tx, rx, s⟩ c' ∧ c = ⟨c'.prog >>= f, c'.tx, c'.rx, c'.peer⟩ := by
  cases p with
  | done a => exact absurd rfl (hd a)
  | push b k => cases h with
    | push hl => exact ⟨_, .push hl, rfl⟩
    | shift => exact ⟨_, .shift, rfl⟩
  | pop k => cases h with
    | pop => exact ⟨_, .pop, rfl⟩
    | shift => exact ⟨_, .shift, rfl⟩

/-- A program whose first part has enough items under way, and ends with `Q`, comes to what
    the rest comes to from there. -/
theorem Triple.must_bind {P : List B → List B → σ → Prop} {p : Prog B α} {Q : α → List B → List B → σ → Prop}
    {R : Config B σ β → Prop} {O : α → Nat → Prop} {f : α → Prog B β} {tx rx : List B} {s : σ} {n : Nat} (hc : 0 < cap)
    (hp : Triple cap answer P p Q) (ho : Owed cap O p n) (hn : n ≤ cap) (hl : n ≤ tx.length + rx.length) (h : P tx rx s)
    (hf : ∀ a tx rx s, Q a tx rx s → Must cap answer R ⟨f a, tx, rx, s⟩) : Must cap answer R ⟨p >>= f, tx, rx, s⟩ := by
  have hacc : Acc (fun c' c => Step cap answer c c') (⟨p, tx, rx, s⟩ : Config B σ α) := acc_step p tx rx s
  have hh : Holds cap answer Q p tx rx s := hp.holds tx rx s h
  have hcov : Covered cap O (⟨p, tx, rx, s⟩ : Config B σ α) := ⟨n, hn, hl, ho⟩
  clear h hp ho hn hl
  generalize hc0 : (⟨p, tx, rx, s⟩ : Config B σ α) = c0 at hacc hcov
  induction hacc generalizing p tx rx s with
  | intro c0 _ ih =>
    subst hc0
    by_cases hd : ∃ a, p = .done a
    · obtain ⟨a, rfl⟩ := hd
      exact hf a tx rx s (hh _ _ _ .refl)
    · have hd : ∀ a, p ≠ .done a := fun a ha => hd ⟨a, ha⟩
      obtain ⟨c1, h1⟩ := goes_on hc hd hcov.not_waits
      refine .later ⟨_, h1.bind f⟩ fun c' h' => ?_
      obtain ⟨c2, h2, rfl⟩ := h'.unbind hd
      exact ih c2 h2 (hh.step h2) rfl (hcov.step h2)

end OpenGpos.Lib.Fifo
