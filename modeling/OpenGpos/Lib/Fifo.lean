/-
  OpenGpos.Lib.Fifo — a program at one end of a serial port and a peer at the other. The
  port has a transmit and a receive queue of `cap` items each. A pushed item is shifted at
  any later moment and brings exactly one received item, which is lost if the receive queue
  is full by then. A pop waits for a received item.

  `Owed` counts how many items must at least still come; by `Owed.not_waits` a program that
  it accepts never waits in vain. `Must` is what every run comes to (`Must.of_invariant`),
  `Triple` what holds of the port where the program ends, with one rule for each request.
-/
import Mathlib

namespace OpenGpos.Lib.Fifo

open Relation (ReflTransGen)

variable {B α β σ : Type}

/-! ## Programs -/

inductive Prog (B α : Type) where
  | done (a : α)
  | push (b : B) (k : Prog B α)
  | pop (k : B → Prog B α)

namespace Prog

def bind : Prog B α → (α → Prog B β) → Prog B β
  | done a, f => f a
  | push b k, f => push b (k.bind f)
  | pop k, f => pop fun b => (k b).bind f

instance : Monad (Prog B) where
  pure := done
  bind := bind

def send (b : B) : Prog B Unit := push b (done ())

def receive : Prog B B := pop done

@[simp] theorem pure_eq (a : α) : (pure a : Prog B α) = done a := rfl
@[simp] theorem done_bind (a : α) (f : α → Prog B β) : (done a >>= f) = f a := rfl
@[simp] theorem push_bind (b : B) (k : Prog B α) (f : α → Prog B β) : (push b k >>= f) = push b (k >>= f) := rfl
@[simp] theorem pop_bind (k : B → Prog B α) (f : α → Prog B β) : (pop k >>= f) = pop fun b => k b >>= f := rfl
@[simp] theorem send_bind (b : B) (f : Unit → Prog B β) : (send b >>= f) = push b (f ()) := rfl
@[simp] theorem receive_bind (f : B → Prog B β) : (receive >>= f) = pop f := rfl

theorem bind_assoc {γ : Type} (p : Prog B α) (f : α → Prog B β) (g : β → Prog B γ) :
    (p >>= f) >>= g = p >>= fun a => f a >>= g := by
  induction p with
  | done a => rfl
  | push b k ih => exact congrArg (push b) ih
  | pop k ih => exact congrArg pop (funext ih)

end Prog

/-! ## The port -/

structure Config (B σ α : Type) where
  prog : Prog B α
  tx : List B
  rx : List B
  peer : σ

/-- A received item is lost if there is no room. -/
def enqueue (cap : Nat) (rx : List B) (r : B) : List B := if rx.length < cap then rx ++ [r] else rx

inductive Step (cap : Nat) (answer : σ → B → σ × B) : Config B σ α → Config B σ α → Prop
  | push {b : B} {k : Prog B α} {tx rx : List B} {s : σ} : tx.length < cap →
      Step cap answer ⟨.push b k, tx, rx, s⟩ ⟨k, tx ++ [b], rx, s⟩
  | pop {k : B → Prog B α} {tx rx : List B} {r : B} {s : σ} :
      Step cap answer ⟨.pop k, tx, r :: rx, s⟩ ⟨k r, tx, rx, s⟩
  | shift {p : Prog B α} {b : B} {tx rx : List B} {s : σ} :
      Step cap answer ⟨p, b :: tx, rx, s⟩ ⟨p, tx, enqueue cap rx (answer s b).2, (answer s b).1⟩

/-- Any number of steps. -/
def Steps (cap : Nat) (answer : σ → B → σ × B) : Config B σ α → Config B σ α → Prop := ReflTransGen (Step cap answer)

/-- A pop that no item can ever end. -/
def Waits (c : Config B σ α) : Prop := (∃ k, c.prog = .pop k) ∧ c.tx = [] ∧ c.rx = []

/-- The items under way. -/
def Config.outstanding (c : Config B σ α) : Nat := c.tx.length + c.rx.length

variable {cap : Nat} {answer : σ → B → σ × B}

theorem length_enqueue (rx : List B) (r : B) : (enqueue cap rx r).length =
    if rx.length < cap then rx.length + 1 else rx.length := by
  unfold enqueue
  split <;> simp

theorem Step.bind {c c' : Config B σ α} (f : α → Prog B β) (h : Step cap answer c c') :
    Step cap answer ⟨c.prog >>= f, c.tx, c.rx, c.peer⟩ ⟨c'.prog >>= f, c'.tx, c'.rx, c'.peer⟩ := by
  cases h with
  | push hl => exact .push hl
  | pop => exact .pop
  | shift => exact .shift

theorem Steps.trans {c c' c'' : Config B σ α} (h : Steps cap answer c c') (h' : Steps cap answer c' c'') :
    Steps cap answer c c'' :=
  Relation.ReflTransGen.trans h h'

theorem Steps.bind {c c' : Config B σ α} (f : α → Prog B β) (h : Steps cap answer c c') :
    Steps cap answer ⟨c.prog >>= f, c.tx, c.rx, c.peer⟩ ⟨c'.prog >>= f, c'.tx, c'.rx, c'.peer⟩ := by
  induction h with
  | refl => exact .refl
  | tail _ hs ih => exact .tail ih (hs.bind f)

theorem Waits.bind {c : Config B σ α} (f : α → Prog B β) (h : Waits c) : Waits ⟨c.prog >>= f, c.tx, c.rx, c.peer⟩ := by
  obtain ⟨⟨k, hk⟩, ht, hr⟩ := h
  exact ⟨⟨fun b => k b >>= f, by rw [hk]; rfl⟩, ht, hr⟩

theorem Step.rx_le {c c' : Config B σ α} (hc : c.rx.length ≤ cap) (h : Step cap answer c c') : c'.rx.length ≤ cap := by
  cases h with
  | push _ => exact hc
  | pop => exact Nat.le_of_succ_le hc
  | shift =>
    change List.length _ ≤ cap at hc ⊢
    rw [length_enqueue]
    split <;> omega

/-- A push whose item is shifted at once. -/
theorem Steps.push_shift {b : B} {k : Prog B α} {rx : List B} {s : σ} (hc : 0 < cap) :
    Steps cap answer ⟨.push b k, [], rx, s⟩ ⟨k, [], enqueue cap rx (answer s b).2, (answer s b).1⟩ :=
  .tail (.single (.push hc)) .shift

theorem Steps.invariant (Inv : Config B σ α → Prop) (hstep : ∀ c c', Inv c → Step cap answer c c' → Inv c')
    {c c' : Config B σ α} (h : Steps cap answer c c') (hc : Inv c) : Inv c' := by
  induction h with
  | refl => exact hc
  | tail _ hs ih => exact hstep _ _ ih hs

/-! ## Items that must still come -/

/-- With at least `n ≤ cap` items under way, the program never pops in vain, and it ends with
    `m` items under way such that `Q` of the result and `m`. A push counts up to `cap`
    only: behind a loss the receive queue is full. -/
def Owed (cap : Nat) (Q : α → Nat → Prop) : Prog B α → Nat → Prop
  | .done a, n => Q a n
  | .push _ k, n => Owed cap Q k (min cap (n + 1))
  | .pop k, n => 0 < n ∧ ∀ b, Owed cap Q (k b) (n - 1)

theorem Owed.bind {Q : α → Nat → Prop} {R : β → Nat → Prop} {f : α → Prog B β}
    (hf : ∀ a m, Q a m → Owed cap R (f a) m) {p : Prog B α} :
    ∀ {n : Nat}, Owed cap Q p n → Owed cap R (p >>= f) n := by
  induction p with
  | done a => exact fun h => hf a _ h
  | push b k ih => exact fun h => ih h
  | pop k ih => exact fun h => ⟨h.1, fun b => ih b (h.2 b)⟩

theorem Owed.conseq {Q R : α → Nat → Prop} (h : ∀ a m, Q a m → R a m) {p : Prog B α} :
    ∀ {n : Nat}, Owed cap Q p n → Owed cap R p n := by
  induction p with
  | done a => exact fun hq => h a _ hq
  | push b k ih => exact fun hq => ih hq
  | pop k ih => exact fun hq => ⟨hq.1, fun b => ih b (hq.2 b)⟩

/-- A configuration that `Owed` accepts. -/
def Covered (cap : Nat) (Q : α → Nat → Prop) (c : Config B σ α) : Prop :=
  ∃ n, n ≤ cap ∧ n ≤ c.outstanding ∧ Owed cap Q c.prog n

theorem Covered.step {Q : α → Nat → Prop} {c c' : Config B σ α} (h : Covered cap Q c) (hs : Step cap answer c c') :
    Covered cap Q c' := by
  obtain ⟨n, hn, ho, hq⟩ := h
  cases hs with
  | push hl =>
    refine ⟨min cap (n + 1), Nat.min_le_left .., ?_, hq⟩
    simp only [Config.outstanding, List.length_append, List.length_singleton] at ho ⊢
    omega
  | pop =>
    refine ⟨n - 1, by omega, ?_, hq.2 _⟩
    simp only [Config.outstanding, List.length_cons] at ho ⊢
    omega
  | shift =>
    refine ⟨n, hn, ?_, hq⟩
    simp only [Config.outstanding, List.length_cons, length_enqueue] at ho ⊢
    split <;> omega

theorem Covered.not_waits {Q : α → Nat → Prop} {c : Config B σ α} (h : Covered cap Q c) : ¬Waits c := by
  rintro ⟨⟨k, hk⟩, ht, hr⟩
  obtain ⟨n, -, ho, hq⟩ := h
  rw [hk] at hq
  have hn := hq.1
  simp only [Config.outstanding, ht, hr, List.length_nil] at ho
  omega

theorem Owed.not_waits {Q : α → Nat → Prop} {c c' : Config B σ α} {n : Nat} (h : Owed cap Q c.prog n) (hn : n ≤ cap)
    (ho : n ≤ c.outstanding) (hs : Steps cap answer c c') : ¬Waits c' :=
  (hs.invariant (Covered cap Q) (fun _ _ => Covered.step) ⟨n, hn, ho, h⟩).not_waits

/-- What is under way where the program ends. -/
theorem Owed.done {Q : α → Nat → Prop} {c c' : Config B σ α} {n : Nat} {a : α} (h : Owed cap Q c.prog n) (hn : n ≤ cap)
    (ho : n ≤ c.outstanding) (hs : Steps cap answer c c') (ha : c'.prog = .done a) :
    ∃ m, m ≤ c'.outstanding ∧ Q a m := by
  obtain ⟨m, -, hm, hq⟩ := hs.invariant (Covered cap Q) (fun _ _ => Covered.step) ⟨n, hn, ho, h⟩
  rw [ha] at hq
  exact ⟨m, hm, hq⟩

/-! ## What every run comes to -/

/-- Every run comes to a configuration with `P`: it neither gets stuck nor goes on for ever before. -/
inductive Must (cap : Nat) (answer : σ → B → σ × B) (P : Config B σ α → Prop) : Config B σ α → Prop
  | now {c : Config B σ α} : P c → Must cap answer P c
  | later {c : Config B σ α} : (∃ c', Step cap answer c c') → (∀ c', Step cap answer c c' → Must cap answer P c') →
      Must cap answer P c

/-- There is no endless run: a step goes on in the program or takes an item away. -/
theorem acc_step (p : Prog B α) : ∀ (tx rx : List B) (s : σ), Acc
    (fun c' c => Step cap answer c c') ⟨p, tx, rx, s⟩ := by
  induction p with
  | done a =>
    intro tx
    induction tx with
    | nil => exact fun rx s => ⟨_, fun c' h => nomatch h⟩
    | cons b tx ih =>
      refine fun rx s => ⟨_, fun c' h => ?_⟩
      cases h with
      | shift => exact ih _ _
  | push b k ihk =>
    intro tx
    induction tx with
    | nil =>
      refine fun rx s => ⟨_, fun c' h => ?_⟩
      cases h with
      | push _ => exact ihk _ _ _
    | cons b' tx ih =>
      refine fun rx s => ⟨_, fun c' h => ?_⟩
      cases h with
      | push _ => exact ihk _ _ _
      | shift => exact ih _ _
  | pop k ihk =>
    intro tx
    induction tx with
    | nil =>
      refine fun rx s => ⟨_, fun c' h => ?_⟩
      cases h with
      | pop => exact ihk _ _ _ _
    | cons b' tx ih =>
      refine fun rx s => ⟨_, fun c' h => ?_⟩
      cases h with
      | pop => exact ihk _ _ _ _
      | shift => exact ih _ _

theorem Must.of_invariant (Inv : Config B σ α → Prop) {P : Config B σ α → Prop}
    (hstep : ∀ c c', Inv c → Step cap answer c c' → Inv c')
    (hprog : ∀ c, Inv c → P c ∨ ∃ c', Step cap answer c c') {c : Config B σ α} (hc : Inv c) : Must cap answer P c := by
  have ha : Acc (fun c' c => Step cap answer c c') c := acc_step c.prog c.tx c.rx c.peer
  induction ha with
  | intro c _ ih =>
    rcases hprog c hc with hp | hs
    · exact .now hp
    · exact .later hs fun c' h => ih c' h (hstep c c' hc h)

theorem Steps.done_eq {c c' : Config B σ α} {a : α} (h : Steps cap answer c c') (hc : c.prog = .done a) :
    c'.prog = .done a := by
  refine h.invariant (fun c => c.prog = .done a) (fun c c' hc hs => ?_) hc
  cases hs with
  | push _ => cases hc
  | pop => cases hc
  | shift => exact hc

/-- A run that comes to what every run comes to. -/
theorem Must.run {P : Config B σ α → Prop} {c : Config B σ α} (h : Must cap answer P c) :
    ∃ c', Steps cap answer c c' ∧ P c' := by
  induction h with
  | now hp => exact ⟨_, .refl, hp⟩
  | later hex _ ih =>
    obtain ⟨c1, h1⟩ := hex
    obtain ⟨c', hs, hp⟩ := ih c1 h1
    exact ⟨c', .head h1 hs, hp⟩

/-- A run that ends gives the result that every run must come to. -/
theorem Must.result {a b : α} {c c' : Config B σ α} (h : Must cap answer (fun c => c.prog = .done a) c)
    (hs : Steps cap answer c c') (hb : c'.prog = .done b) : b = a := by
  induction h generalizing c' with
  | now hc =>
    have he := hs.done_eq hc
    rw [hb] at he
    exact Prog.done.inj he
  | later hex _ ih =>
    rcases Relation.ReflTransGen.cases_head hs with rfl | ⟨c1, h1, h2⟩
    · obtain ⟨c2, h2⟩ := hex
      exact ih c2 h2 .refl (Steps.done_eq (.single h2) hb)
    · exact ih c1 h1 h2 hb

/-! ## What holds in the end -/

/-- Any number of shifts. -/
inductive Shifts (cap : Nat) (answer : σ → B → σ × B) : List B → List B → σ → List B → List B → σ → Prop
  | refl {tx rx : List B} {s : σ} : Shifts cap answer tx rx s tx rx s
  | head {b : B} {tx rx tx' rx' : List B} {s s' : σ} :
      Shifts cap answer tx (enqueue cap rx (answer s b).2) (answer s b).1 tx' rx' s' →
      Shifts cap answer (b :: tx) rx s tx' rx' s'

/-- Of a port: no shift makes it false. -/
def Stable (cap : Nat) (answer : σ → B → σ × B) (P : List B → List B → σ → Prop) : Prop :=
  ∀ b tx rx s, P (b :: tx) rx s → P tx (enqueue cap rx (answer s b).2) (answer s b).1

/-- Whatever is shifted when, the program can only end where `Q` of its result holds. -/
def Holds (cap : Nat) (answer : σ → B → σ × B) (Q : α → List B → List B → σ → Prop) :
    Prog B α → List B → List B → σ → Prop
  | .done a, tx, rx, s => ∀ tx' rx' s', Shifts cap answer tx rx s tx' rx' s' → Q a tx' rx' s'
  | .push b k, tx, rx, s => ∀ tx' rx' s', Shifts cap answer tx rx s tx' rx' s' →
      Holds cap answer Q k (tx' ++ [b]) rx' s'
  | .pop k, tx, rx, s => ∀ tx' r rx' s', Shifts cap answer tx rx s tx' (r :: rx') s' →
      Holds cap answer Q (k r) tx' rx' s'

/-- From a port with `P` the program ends, if it does, with `Q` of its result. -/
structure Triple (cap : Nat) (answer : σ → B → σ × B) (P : List B → List B → σ → Prop) (p : Prog B α)
    (Q : α → List B → List B → σ → Prop) : Prop where
  holds : ∀ tx rx s, P tx rx s → Holds cap answer Q p tx rx s

section
variable {P P' : List B → List B → σ → Prop} {Q Q' : α → List B → List B → σ → Prop}

theorem Stable.shifts (hP : Stable cap answer P) {tx rx tx' rx' : List B} {s s' : σ} (h : P tx rx s)
    (hs : Shifts cap answer tx rx s tx' rx' s') : P tx' rx' s' := by
  induction hs with
  | refl => exact h
  | head _ ih => exact ih (hP _ _ _ _ h)

theorem Holds.shift {p : Prog B α} {b : B} {tx rx : List B} {s : σ} (h : Holds cap answer Q p (b :: tx) rx s) :
    Holds cap answer Q p tx (enqueue cap rx (answer s b).2) (answer s b).1 := by
  cases p with
  | done a => exact fun tx' rx' s' hs => h tx' rx' s' (.head hs)
  | push d k => exact fun tx' rx' s' hs => h tx' rx' s' (.head hs)
  | pop k => exact fun tx' r rx' s' hs => h tx' r rx' s' (.head hs)

theorem Holds.step {c c' : Config B σ α} (h : Holds cap answer Q c.prog c.tx c.rx c.peer) (hs : Step cap answer c c') :
    Holds cap answer Q c'.prog c'.tx c'.rx c'.peer := by
  cases hs with
  | push _ => exact h _ _ _ .refl
  | pop => exact h _ _ _ _ .refl
  | shift => exact h.shift

theorem Triple.sound {p : Prog B α} (h : Triple cap answer P p Q) {tx rx tx' rx' : List B} {s s' : σ} {a : α}
    (hp : P tx rx s) (hs : Steps cap answer ⟨p, tx, rx, s⟩ ⟨.done a, tx', rx', s'⟩) : Q a tx' rx' s' := by
  have hh : Holds cap answer Q (.done a) tx' rx' s' :=
    hs.invariant (fun c => Holds cap answer Q c.prog c.tx c.rx c.peer) (fun _ _ hc hs => hc.step hs)
      (h.holds tx rx s hp)
  exact hh _ _ _ .refl

theorem Triple.done {a : α} (hP : Stable cap answer P) (h : ∀ tx rx s, P tx rx s → Q a tx rx s) :
    Triple cap answer P (.done a) Q :=
  ⟨fun _ _ _ hp _ _ _ hs => h _ _ _ (hP.shifts hp hs)⟩

theorem Triple.push (P' : List B → List B → σ → Prop) {b : B} {k : Prog B α} (hP : Stable cap answer P)
    (h : ∀ tx rx s, P tx rx s → P' (tx ++ [b]) rx s)
    (hk : Triple cap answer P' k Q) : Triple cap answer P (.push b k) Q :=
  ⟨fun _ _ _ hp _ _ _ hs => hk.holds _ _ _ (h _ _ _ (hP.shifts hp hs))⟩

theorem Triple.pop (R : B → List B → List B → σ → Prop) {k : B → Prog B α} (hP : Stable cap answer P)
    (h : ∀ tx r rx s, P tx (r :: rx) s → R r tx rx s) (hk : ∀ r, Triple cap answer (R r) (k r) Q) :
    Triple cap answer P (.pop k) Q :=
  ⟨fun _ _ _ hp _ r _ _ hs => (hk r).holds _ _ _ (h _ _ _ _ (hP.shifts hp hs))⟩

theorem Holds.bind {R : β → List B → List B → σ → Prop} {f : α → Prog B β} {p : Prog B α} :
    ∀ {tx rx s}, Holds cap answer (fun a tx rx s => Holds cap answer R (f a) tx rx s) p tx rx s →
      Holds cap answer R (p >>= f) tx rx s := by
  induction p with
  | done a => exact fun h => h _ _ _ .refl
  | push b k ih => exact fun h tx' rx' s' hs => ih (h tx' rx' s' hs)
  | pop k ih => exact fun h tx' r rx' s' hs => ih r (h tx' r rx' s' hs)

theorem Holds.conseq (h : ∀ a tx rx s, Q a tx rx s → Q' a tx rx s) {p : Prog B α} :
    ∀ {tx rx s}, Holds cap answer Q p tx rx s → Holds cap answer Q' p tx rx s := by
  induction p with
  | done a => exact fun hh tx' rx' s' hs => h _ _ _ _ (hh tx' rx' s' hs)
  | push b k ih => exact fun hh tx' rx' s' hs => ih (hh tx' rx' s' hs)
  | pop k ih => exact fun hh tx' r rx' s' hs => ih r (hh tx' r rx' s' hs)

theorem Stable.imp {c : Prop} (hP : Stable cap answer P) : Stable cap answer fun tx rx s => c → P tx rx s :=
  fun b tx rx s h hc => hP b tx rx s (h hc)

theorem Triple.bind {R : β → List B → List B → σ → Prop} {f : α → Prog B β} {p : Prog B α}
    (hp : Triple cap answer P p Q) (hf : ∀ a, Triple cap answer (Q a) (f a) R) : Triple cap answer P (p >>= f) R :=
  ⟨fun tx rx s h => Holds.bind ((hp.holds tx rx s h).conseq fun a => (hf a).holds)⟩

theorem Triple.pre {p : Prog B α} (h : Triple cap answer P p Q) (hp : ∀ tx rx s, P' tx rx s → P tx rx s) :
    Triple cap answer P' p Q :=
  ⟨fun tx rx s h' => h.holds tx rx s (hp tx rx s h')⟩

theorem Triple.post {p : Prog B α} (h : Triple cap answer P p Q) (hq : ∀ a tx rx s, Q a tx rx s → Q' a tx rx s) :
    Triple cap answer P p Q' :=
  ⟨fun tx rx s h' => (h.holds tx rx s h').conseq hq⟩

end

end OpenGpos.Lib.Fifo
