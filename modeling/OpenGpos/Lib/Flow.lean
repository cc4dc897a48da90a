/-
  OpenGpos.Lib.Flow — a program on a port without timing. `Flow` gives a pushed item its
  answer at once and never holds more than `cap` of them. By `Flow.steps` the real port can
  do the same, and by `Flow.must` it does so under any timing: as long as no more than `cap`
  items are under way nothing is lost, and the order of the answers is that of the pushes.
-/
import OpenGpos.Lib.Fifo

namespace OpenGpos.Lib.Fifo

variable {B α β σ : Type} {cap : Nat} {answer : σ → B → σ × B}

/-! ## The untimed port -/

/-- What the items bring, and the peer behind them. -/
def replies (answer : σ → B → σ × B) : σ → List B → List B
  | _, [] => []
  | s, b :: bs => (answer s b).2 :: replies answer (answer s b).1 bs

def after (answer : σ → B → σ × B) : σ → List B → σ
  | s, [] => s
  | s, b :: bs => after answer (answer s b).1 bs

theorem replies_append (bs bs' : List B) : ∀ s : σ,
    replies answer s (bs ++ bs') = replies answer s bs ++ replies answer (after answer s bs) bs' := by
  induction bs with
  | nil => exact fun s => rfl
  | cons b bs ih => exact fun s => congrArg _ (ih _)

theorem after_append (bs bs' : List B) : ∀ s : σ, after answer s (bs ++ bs') = after answer (after answer s bs) bs' := by
  induction bs with
  | nil => exact fun s => rfl
  | cons b bs ih => exact fun s => ih _

theorem length_replies (bs : List B) : ∀ s : σ, (replies answer s bs).length = bs.length := by
  induction bs with
  | nil => exact fun s => rfl
  | cons b bs ih => exact fun s => congrArg (· + 1) (ih _)

/-- A pushed item brings its answer at once, to a queue that never holds more than `cap` items. -/
inductive Flow (cap : Nat) (answer : σ → B → σ × B) : Prog B α → List B → σ → α → List B → σ → Prop
  | done {a : α} {q : List B} {s : σ} : Flow cap answer (.done a) q s a q s
  | push {b : B} {k : Prog B α} {q q' : List B} {s s' : σ} {a : α} : q.length < cap →
      Flow cap answer k (q ++ [(answer s b).2]) (answer s b).1 a q' s' → Flow cap answer (.push b k) q s a q' s'
  | pop {k : B → Prog B α} {r : B} {q q' : List B} {s s' : σ} {a : α} :
      Flow cap answer (k r) q s a q' s' → Flow cap answer (.pop k) (r :: q) s a q' s'

theorem Flow.bind {p : Prog B α} {f : α → Prog B β} {q q' q'' : List B} {s s' s'' : σ} {a : α} {b : β}
    (h : Flow cap answer p q s a q' s') (hf : Flow cap answer (f a) q' s' b q'' s'') :
    Flow cap answer (p >>= f) q s b q'' s'' := by
  induction h with
  | done => exact hf
  | push hl _ ih => exact .push hl (ih hf)
  | pop _ ih => exact .pop (ih hf)

/-- Every item shifted at once. -/
theorem Flow.steps {p : Prog B α} {q q' : List B} {s s' : σ} {a : α} (h : Flow cap answer p q s a q' s') (hc : 0 < cap) :
    Steps cap answer ⟨p, [], q, s⟩ ⟨.done a, [], q', s'⟩ := by
  induction h with
  | done => exact .refl
  | @push b k q q' s s' a hl _ ih =>
    have he : enqueue cap q (answer s b).2 = q ++ [(answer s b).2] := if_pos hl
    exact .trans (Steps.push_shift hc) (he ▸ ih)
  | pop _ ih => exact .head .pop ih

/-- No pop is left: whatever is lost from here on, the result is `a`. -/
inductive Finishes : Prog B α → α → Prop
  | done {a : α} : Finishes (.done a) a
  | push {b : B} {k : Prog B α} {a : α} : Finishes k a → Finishes (.push b k) a

/-! ## Any timing -/

/-- The timed port with nothing lost: the queue of the untimed one is what was received and
    what the items in the transmit queue will bring. -/
def Follows (cap : Nat) (answer : σ → B → σ × B) (f : α → Prog B β) (a : α) (c : Config B σ β) : Prop :=
  c.outstanding ≤ cap ∧ ∃ p q s, c.prog = p >>= f ∧
    Flow cap answer p (c.rx ++ replies answer c.peer c.tx) (after answer c.peer c.tx) a q s

theorem Follows.step {f : α → Prog B β} {a : α} {b : β} (hf : Finishes (f a) b) {c c' : Config B σ β}
    (h : Follows cap answer f a c) (hs : Step cap answer c c') : Follows cap answer f a c' ∨ Finishes c'.prog b := by
  obtain ⟨ho, p, q, s, hp, hflow⟩ := h
  cases hs with
  | @push d k tx rx s0 hl =>
    change Prog.push d k = p >>= f at hp
    change tx.length + rx.length ≤ cap at ho
    change Flow cap answer p (rx ++ replies answer s0 tx) (after answer s0 tx) a q s at hflow
    generalize hq : rx ++ replies answer s0 tx = q0 at hflow
    cases hflow with
    | done =>
      change Prog.push d k = f a at hp
      rw [← hp] at hf
      cases hf with
      | push hk => exact .inr hk
    | @push d' k' _ _ _ _ _ hl' hk =>
      obtain ⟨rfl, rfl⟩ := Prog.push.inj hp
      refine .inl ⟨?_, k', q, s, rfl, ?_⟩
      · rw [← hq, List.length_append, length_replies] at hl'
        simp only [Config.outstanding, List.length_append, List.length_singleton]
        omega
      · simp only [replies_append, after_append, ← List.append_assoc, hq]
        exact hk
    | pop => cases hp
  | @pop k tx rx r s0 =>
    change Prog.pop k = p >>= f at hp
    change Flow cap answer p (r :: rx ++ replies answer s0 tx) (after answer s0 tx) a q s at hflow
    generalize hq : r :: rx ++ replies answer s0 tx = q0 at hflow
    cases hflow with
    | done =>
      change Prog.pop k = f a at hp
      rw [← hp] at hf
      cases hf
    | push => cases hp
    | pop hk =>
      obtain rfl := Prog.pop.inj hp
      obtain ⟨rfl, rfl⟩ := List.cons.inj hq
      refine .inl ⟨?_, _, q, s, rfl, hk⟩
      simp only [Config.outstanding, List.length_cons] at ho ⊢
      omega
  | @shift p0 d tx rx s0 =>
    simp only [Config.outstanding, List.length_cons] at ho
    have he : enqueue cap rx (answer s0 d).2 = rx ++ [(answer s0 d).2] := if_pos (by omega)
    refine .inl ⟨?_, p, q, s, hp, ?_⟩
    · simp only [Config.outstanding, he, List.length_append, List.length_singleton]
      omega
    · simp only [he, List.append_assoc]
      exact hflow

theorem push_goes_on {b : B} {k : Prog B α} {tx rx : List B} {s : σ} (hc : 0 < cap) :
    ∃ c', Step cap answer ⟨.push b k, tx, rx, s⟩ c' := by
  cases tx with
  | nil => exact ⟨_, .push hc⟩
  | cons d tx => exact ⟨_, .shift⟩

theorem Follows.goes_on {f : α → Prog B β} {a : α} {b : β} (hc : 0 < cap) (hf : Finishes (f a) b) {c : Config B σ β}
    (h : Follows cap answer f a c) : c.prog = .done b ∨ ∃ c', Step cap answer c c' := by
  obtain ⟨prog, tx, rx, s0⟩ := c
  obtain ⟨-, p, q, s, hp, hflow⟩ := h
  obtain rfl : prog = p >>= f := hp
  generalize hq : rx ++ replies answer s0 tx = q0 at hflow
  cases hflow with
  | done =>
    change f a = _ ∨ ∃ c', Step cap answer ⟨f a, _, _, _⟩ c'
    generalize f a = p at hf
    cases hf with
    | done => exact .inl rfl
    | push => exact .inr (push_goes_on hc)
  | push => exact .inr (push_goes_on hc)
  | pop =>
    cases rx with
    | cons r rx => exact .inr ⟨_, .pop⟩
    | nil => cases tx with
      | nil => cases hq
      | cons d tx => exact .inr ⟨_, .shift⟩

/-- The untimed result is the one of every timing. -/
theorem Flow.must {p : Prog B α} {f : α → Prog B β} {a : α} {b : β} {q' : List B} {s' : σ} {tx rx : List B} {s : σ}
    (h : Flow cap answer p (rx ++ replies answer s tx) (after answer s tx) a q' s') (hc : 0 < cap)
    (hl : tx.length + rx.length ≤ cap) (hf : Finishes (f a) b) :
    Must cap answer (fun c => c.prog = .done b) ⟨p >>= f, tx, rx, s⟩ := by
  refine Must.of_invariant (fun c => Follows cap answer f a c ∨ Finishes c.prog b) ?_ ?_
    (.inl ⟨hl, p, q', s', rfl, h⟩)
  · rintro c c' (hi | hi) hs
    · exact hi.step hf hs
    · right
      cases hs with
      | push _ => cases hi with
        | push hk => exact hk
      | pop => cases hi
      | shift => exact hi
  · rintro ⟨prog, tx, rx, s⟩ (hi | hi)
    · exact hi.goes_on hc hf
    · cases hi with
      | done => exact .inl rfl
      | push _ => exact .inr (push_goes_on hc)

end OpenGpos.Lib.Fifo
