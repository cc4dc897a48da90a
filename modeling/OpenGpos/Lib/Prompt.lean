/-
  OpenGpos.Lib.Prompt — a program that is quicker than the port of `Lib.Fifo`: an item is shifted only
  where the program waits for room or for an item. There is then one run (`PromptStep.deterministic`),
  and it is one of the runs of the port (`PromptStep.step`). `Prompt` is its outcome.

  As long as it pushes one idle item for each it pops (`Reads`) nothing is lost, however much is under
  way: it finds what is ahead of it in the queues and at the peer (`Reads.prompt`).
-/
import OpenGpos.Lib.Flow

namespace OpenGpos.Lib.Fifo

open Relation (ReflTransGen)

variable {B α β σ : Type} {cap : Nat} {answer : σ → B → σ × B}

/-! ## The prompt run -/

/-- The next request cannot be served. -/
inductive Blocked (cap : Nat) : Config B σ α → Prop
  | push {b : B} {k : Prog B α} {tx rx : List B} {s : σ} : cap ≤ tx.length → Blocked cap ⟨.push b k, tx, rx, s⟩
  | pop {k : B → Prog B α} {tx : List B} {s : σ} : Blocked cap ⟨.pop k, tx, [], s⟩

inductive PromptStep (cap : Nat) (answer : σ → B → σ × B) : Config B σ α → Config B σ α → Prop
  | push {b : B} {k : Prog B α} {tx rx : List B} {s : σ} : tx.length < cap →
      PromptStep cap answer ⟨.push b k, tx, rx, s⟩ ⟨k, tx ++ [b], rx, s⟩
  | pop {k : B → Prog B α} {tx rx : List B} {r : B} {s : σ} :
      PromptStep cap answer ⟨.pop k, tx, r :: rx, s⟩ ⟨k r, tx, rx, s⟩
  | shift {p : Prog B α} {b : B} {tx rx : List B} {s : σ} : Blocked cap ⟨p, b :: tx, rx, s⟩ →
      PromptStep cap answer ⟨p, b :: tx, rx, s⟩ ⟨p, tx, enqueue cap rx (answer s b).2, (answer s b).1⟩

def PromptSteps (cap : Nat) (answer : σ → B → σ × B) : Config B σ α → Config B σ α → Prop :=
  ReflTransGen (PromptStep cap answer)

theorem PromptStep.step {c c' : Config B σ α} (h : PromptStep cap answer c c') : Step cap answer c c' := by
  cases h with
  | push hl => exact .push hl
  | pop => exact .pop
  | shift _ => exact .shift

theorem PromptStep.deterministic {c c' c'' : Config B σ α} (h : PromptStep cap answer c c')
    (h' : PromptStep cap answer c c'') : c' = c'' := by
  cases h with
  | push hl =>
    cases h' with
    | push _ => rfl
    | shift hb =>
      cases hb with
      | push hf => exact absurd hl (Nat.not_lt.mpr hf)
  | pop =>
    cases h' with
    | pop => rfl
    | shift hb => cases hb
  | shift hb =>
    cases h' with
    | push hl =>
      cases hb with
      | push hf => exact absurd hl (Nat.not_lt.mpr hf)
    | pop => cases hb
    | shift _ => rfl

/-- Where the prompt run from `p` ends. -/
inductive Prompt (cap : Nat) (answer : σ → B → σ × B) : Prog B α → List B → List B → σ → α → List B → List B → σ → Prop
  | done {a : α} {tx rx : List B} {s : σ} : Prompt cap answer (.done a) tx rx s a tx rx s
  | push {b : B} {k : Prog B α} {tx rx tx' rx' : List B} {s s' : σ} {a : α} : tx.length < cap →
      Prompt cap answer k (tx ++ [b]) rx s a tx' rx' s' → Prompt cap answer (.push b k) tx rx s a tx' rx' s'
  | pushFull {b d : B} {k : Prog B α} {tx rx tx' rx' : List B} {s s' : σ} {a : α} : cap ≤ (d :: tx).length →
      Prompt cap answer (.push b k) tx (enqueue cap rx (answer s d).2) (answer s d).1 a tx' rx' s' →
      Prompt cap answer (.push b k) (d :: tx) rx s a tx' rx' s'
  | pop {k : B → Prog B α} {r : B} {tx rx tx' rx' : List B} {s s' : σ} {a : α} :
      Prompt cap answer (k r) tx rx s a tx' rx' s' → Prompt cap answer (.pop k) tx (r :: rx) s a tx' rx' s'
  | popEmpty {d : B} {k : B → Prog B α} {tx tx' rx' : List B} {s s' : σ} {a : α} :
      Prompt cap answer (.pop k) tx (enqueue cap [] (answer s d).2) (answer s d).1 a tx' rx' s' →
      Prompt cap answer (.pop k) (d :: tx) [] s a tx' rx' s'

section
variable {p : Prog B α} {tx rx tx' rx' tx'' rx'' : List B} {s s' s'' : σ} {a : α} {b : β}

theorem Prompt.bind {f : α → Prog B β} (h : Prompt cap answer p tx rx s a tx' rx' s')
    (hf : Prompt cap answer (f a) tx' rx' s' b tx'' rx'' s'') : Prompt cap answer (p >>= f) tx rx s b tx'' rx'' s'' := by
  induction h with
  | done => exact hf
  | push hl _ ih => exact .push hl (ih hf)
  | pushFull hl _ ih => exact .pushFull hl (ih hf)
  | pop _ ih => exact .pop (ih hf)
  | popEmpty _ ih => exact .popEmpty (ih hf)

theorem Prompt.steps (h : Prompt cap answer p tx rx s a tx' rx' s') :
    PromptSteps cap answer ⟨p, tx, rx, s⟩ ⟨.done a, tx', rx', s'⟩ := by
  induction h with
  | done => exact .refl
  | push hl _ ih => exact .head (.push hl) ih
  | pushFull hl _ ih => exact .head (.shift (.push hl)) ih
  | pop _ ih => exact .head .pop ih
  | popEmpty _ ih => exact .head (.shift .pop) ih

/-- Wherever the prompt run has come to, it goes on to its outcome. -/
theorem Prompt.reached (h : Prompt cap answer p tx rx s a tx' rx' s') {c : Config B σ α}
    (hc : PromptSteps cap answer ⟨p, tx, rx, s⟩ c) : PromptSteps cap answer c ⟨.done a, tx', rx', s'⟩ := by
  induction hc with
  | refl => exact h.steps
  | tail _ hs ih =>
    rcases ReflTransGen.cases_head ih with rfl | ⟨c', h', hrest⟩
    · cases hs with
      | shift hb => cases hb
    · rw [hs.deterministic h']
      exact hrest

end

/-! ## Paced programs -/

/-- A program that pushes an idle item behind each pop, and nothing else, finds `l` and leaves `l'`
    of it. -/
inductive Reads (idle : B) : Prog B α → List B → α → List B → Prop
  | done {a : α} {l : List B} : Reads idle (.done a) l a l
  | turn {k : B → Prog B α} {r : B} {l l' : List B} {a : α} : Reads idle (k r) l a l' →
      Reads idle (.pop fun b => .push idle (k b)) (r :: l) a l'

theorem Reads.bind {idle : B} {p : Prog B α} {f : α → Prog B β} {l l' l'' : List B} {a : α} {b : β}
    (h : Reads idle p l a l') (hf : Reads idle (f a) l' b l'') : Reads idle (p >>= f) l b l'' := by
  induction h with
  | done => exact hf
  | turn _ ih => exact .turn (ih hf)

/-- Two queues that together hold something, and neither too much. -/
structure Loaded (cap : Nat) (tx rx : List B) : Prop where
  some : 1 ≤ tx.length + rx.length
  tx : tx.length ≤ cap
  rx : rx.length ≤ cap

/-- What the queues and the peer behind them bring, as a predicate on both: `Stands q s` of the
    received items with the answers to those in the transmit queue, and the peer behind these. -/
def Ahead (answer : σ → B → σ × B) (Stands : List B → σ → List B → Prop) (tx rx : List B) (s : σ) (l : List B) : Prop :=
  Stands (rx ++ replies answer s tx) (after answer s tx) l

section
variable {Stands : List B → σ → List B → Prop} {tx rx : List B} {s : σ} {l : List B}

theorem Ahead.shift {d : B} (h : Ahead answer Stands (d :: tx) rx s l) (hr : rx.length < cap) :
    Ahead answer Stands tx (enqueue cap rx (answer s d).2) (answer s d).1 l := by
  unfold Ahead enqueue
  rw [if_pos hr, List.append_assoc]
  exact h

end

/-- A paced program on a prompt port reads what is ahead. -/
theorem Reads.prompt {idle : B} {Stands : List B → σ → List B → Prop} (hc : 0 < cap)
    (hpop : ∀ q s r r' l, Stands (r :: q) s (r' :: l) → r = r' ∧ Stands q s l)
    (hpush : ∀ q s l, Stands q s l → Stands (q ++ [(answer s idle).2]) (answer s idle).1 l)
    {p : Prog B α} {l l' : List B} {a : α} (h : Reads idle p l a l') : ∀ {tx rx : List B} {s : σ},
    Loaded cap tx rx → Ahead answer Stands tx rx s l → ∃ tx' rx' s', Prompt cap answer p tx rx s a tx' rx' s' ∧
      Loaded cap tx' rx' ∧ Ahead answer Stands tx' rx' s' l' := by
  induction h with
  | done => exact fun hl ha => ⟨_, _, _, .done, hl, ha⟩
  | @turn k r l l' a _ ih =>
    -- a pop from a queue that is not empty, and its push
    have hturn : ∀ {tx rx : List B} {r0 : B} {s : σ}, Loaded cap tx (r0 :: rx) → Ahead answer Stands tx (r0 :: rx) s (r :: l) →
        ∃ tx' rx' s', Prompt cap answer (.pop fun b => .push idle (k b)) tx (r0 :: rx) s a tx' rx' s' ∧
          Loaded cap tx' rx' ∧ Ahead answer Stands tx' rx' s' l' := by
      intro tx rx r0 s hl ha
      obtain ⟨rfl, ha'⟩ := hpop _ _ _ _ _ ha
      have hr : rx.length < cap := hl.rx
      have happend : ∀ {tx rx : List B} {s : σ}, Ahead answer Stands tx rx s l → Ahead answer Stands (tx ++ [idle]) rx s l := by
        intro tx rx s h
        unfold Ahead
        rw [replies_append, after_append, ← List.append_assoc]
        exact hpush _ _ _ h
      by_cases hf : tx.length < cap
      · obtain ⟨tx', rx', s', hp, hl', ha''⟩ := @ih (tx ++ [idle]) rx s
          ⟨by simp; omega, by simpa using hf, Nat.le_of_lt hr⟩ (happend ha')
        exact ⟨tx', rx', s', .pop (.push hf hp), hl', ha''⟩
      · cases tx with
        | nil => exact absurd hc hf
        | cons d tx =>
          have htx := hl.tx
          rw [List.length_cons] at htx
          have he : (enqueue cap rx (answer s d).2).length = rx.length + 1 := by
            rw [length_enqueue, if_pos hr]
          obtain ⟨tx', rx', s', hp, hl', ha''⟩ := @ih (tx ++ [idle]) (enqueue cap rx (answer s d).2) (answer s d).1
            ⟨by simp; omega, by simpa using htx, by rw [he]; exact hr⟩ (happend (Ahead.shift ha' hr))
          exact ⟨tx', rx', s', .pop (.pushFull (Nat.not_lt.mp hf) (.push htx hp)), hl', ha''⟩
    intro tx rx s hl ha
    cases rx with
    | cons r0 rx => exact hturn hl ha
    | nil =>
      cases tx with
      | nil => exact absurd hl.some (by simp)
      | cons d tx =>
        have htx := hl.tx
        rw [List.length_cons] at htx
        have he : enqueue cap [] (answer s d).2 = [(answer s d).2] := if_pos hc
        have ha' := ha.shift hc
        rw [he] at ha'
        obtain ⟨tx', rx', s', hp, hl', ha''⟩ := hturn ⟨by simp, Nat.le_of_lt htx, (show [(answer s d).2].length ≤ cap from hc)⟩ ha'
        exact ⟨tx', rx', s', .popEmpty (he ▸ hp), hl', ha''⟩

end OpenGpos.Lib.Fifo
