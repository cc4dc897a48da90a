/-
  OpenGpos.Lib.Mmio — a program that loads from and stores to the registers of a device, beside a
  device that goes on by itself at any moment. A loop that does nothing but poll a register is one
  instruction (`Prog.await`).

  `Triple I P p Q`: from a device with `P`, whatever it does meanwhile, `I` holds at all times and
  `Q` of the result where the program ends. There is one rule for each instruction; what they ask of
  the assertions in between is that no move of the device makes them false (`Stable`).
-/
import Mathlib

namespace OpenGpos.Lib.Mmio

open Relation (ReflTransGen)

variable {R V α β σ : Type}

/-! ## Programs -/

inductive Prog (R V α : Type) where
  | done (a : α)
  | load (r : R) (k : V → Prog R V α)
  | store (r : R) (v : V) (k : Prog R V α)
  /-- `while (!cond(*r));` -/
  | await (r : R) (cond : V → Bool) (k : Prog R V α)

namespace Prog

def bind : Prog R V α → (α → Prog R V β) → Prog R V β
  | done a, f => f a
  | load r k, f => load r fun v => (k v).bind f
  | store r v k, f => store r v (k.bind f)
  | await r cond k, f => await r cond (k.bind f)

instance : Monad (Prog R V) where
  pure := done
  bind := bind

def read (r : R) : Prog R V V := load r done

def write (r : R) (v : V) : Prog R V Unit := store r v (done ())

def wait (r : R) (cond : V → Bool) : Prog R V Unit := await r cond (done ())

@[simp] theorem pure_eq (a : α) : (pure a : Prog R V α) = done a := rfl
@[simp] theorem done_bind (a : α) (f : α → Prog R V β) : (done a >>= f) = f a := rfl
@[simp] theorem load_bind (r : R) (k : V → Prog R V α) (f : α → Prog R V β) :
    (load r k >>= f) = load r fun v => k v >>= f := rfl
@[simp] theorem store_bind (r : R) (v : V) (k : Prog R V α) (f : α → Prog R V β) :
    (store r v k >>= f) = store r v (k >>= f) := rfl
@[simp] theorem await_bind (r : R) (cond : V → Bool) (k : Prog R V α) (f : α → Prog R V β) :
    (await r cond k >>= f) = await r cond (k >>= f) := rfl
@[simp] theorem read_bind (r : R) (f : V → Prog R V β) : (read r >>= f) = load r f := rfl
@[simp] theorem write_bind (r : R) (v : V) (f : Unit → Prog R V β) : (write r v >>= f) = store r v (f ()) := rfl
@[simp] theorem wait_bind (r : R) (cond : V → Bool) (f : Unit → Prog R V β) :
    (wait r cond >>= f) = await r cond (f ()) := rfl

theorem bind_assoc {γ : Type} (p : Prog R V α) (f : α → Prog R V β) (g : β → Prog R V γ) :
    (p >>= f) >>= g = p >>= fun a => f a >>= g := by
  induction p with
  | done a => rfl
  | load r k ih => exact congrArg (load r) (funext ih)
  | store r v k ih => exact congrArg (store r v) ih
  | await r cond k ih => exact congrArg (await r cond) ih

theorem bind_done (p : Prog R V α) : (p >>= fun a => done a) = p := by
  induction p with
  | done a => rfl
  | load r k ih => exact congrArg (load r) (funext ih)
  | store r v k ih => exact congrArg (store r v) ih
  | await r cond k ih => exact congrArg (await r cond) ih

end Prog

/-! ## Beside a device -/

/-- What a load brings and what it changes, what a store changes, and what happens by itself. -/
structure Device (R V σ : Type) where
  load : σ → R → V × σ
  store : σ → R → V → σ
  move : σ → σ → Prop

structure Config (R V σ α : Type) where
  prog : Prog R V α
  state : σ

variable (d : Device R V σ)

inductive Step : Config R V σ α → Config R V σ α → Prop
  | load {r : R} {k : V → Prog R V α} {s : σ} : Step ⟨.load r k, s⟩ ⟨k (d.load s r).1, (d.load s r).2⟩
  | store {r : R} {v : V} {k : Prog R V α} {s : σ} : Step ⟨.store r v k, s⟩ ⟨k, d.store s r v⟩
  | leave {r : R} {cond : V → Bool} {k : Prog R V α} {s : σ} : cond (d.load s r).1 = true →
      Step ⟨.await r cond k, s⟩ ⟨k, (d.load s r).2⟩
  | again {r : R} {cond : V → Bool} {k : Prog R V α} {s : σ} : cond (d.load s r).1 = false →
      Step ⟨.await r cond k, s⟩ ⟨.await r cond k, (d.load s r).2⟩
  | move {p : Prog R V α} {s s' : σ} : d.move s s' → Step ⟨p, s⟩ ⟨p, s'⟩

/-- Any number of steps. -/
def Steps : Config R V σ α → Config R V σ α → Prop := ReflTransGen (Step d)

/-- The device as long as nothing happens by itself. -/
def Device.still : Device R V σ := { d with move := fun _ _ => False }

/-- Any number of moves. -/
def Moves : σ → σ → Prop := ReflTransGen d.move

/-- Any number of moves and of polls in vain. -/
def Waits (r : R) (cond : V → Bool) : σ → σ → Prop :=
  ReflTransGen fun s s' => d.move s s' ∨ cond (d.load s r).1 = false ∧ s' = (d.load s r).2

/-- Whatever happens, `I` holds at all times and `Q` where the program ends. -/
def Holds (I : σ → Prop) (Q : α → σ → Prop) : Prog R V α → σ → Prop
  | .done a, s => ∀ s', Moves d s s' → I s' ∧ Q a s'
  | .load r k, s => ∀ s', Moves d s s' → I s' ∧ Holds I Q (k (d.load s' r).1) (d.load s' r).2
  | .store r v k, s => ∀ s', Moves d s s' → I s' ∧ Holds I Q k (d.store s' r v)
  | .await r cond k, s => ∀ s', Waits d r cond s s' →
      I s' ∧ (cond (d.load s' r).1 = true → Holds I Q k (d.load s' r).2)

/-- No move of the device makes `P` false. -/
def Stable (P : σ → Prop) : Prop := ∀ s s', P s → d.move s s' → P s'

structure Triple (I P : σ → Prop) (p : Prog R V α) (Q : α → σ → Prop) : Prop where
  holds : ∀ s, P s → Holds d I Q p s

variable {d}

theorem Steps.of_still {c c' : Config R V σ α} (h : Steps d.still c c') : Steps d c c' := by
  induction h with
  | refl => exact .refl
  | tail _ hs ih =>
    refine .tail ih ?_
    cases hs with
    | load => exact .load
    | store => exact .store
    | leave h => exact .leave h
    | again h => exact .again h
    | move h => exact h.elim

theorem Steps.bind {c c' : Config R V σ α} (f : α → Prog R V β) (h : Steps d c c') :
    Steps d ⟨c.prog >>= f, c.state⟩ ⟨c'.prog >>= f, c'.state⟩ := by
  induction h with
  | refl => exact .refl
  | tail _ hs ih =>
    refine .tail ih ?_
    cases hs with
    | load => exact .load
    | store => exact .store
    | leave h => exact .leave h
    | again h => exact .again h
    | move h => exact .move h

theorem Stable.moves {P : σ → Prop} (hP : Stable d P) {s s' : σ} (h : P s) (hs : Moves d s s') : P s' := by
  induction hs with
  | refl => exact h
  | tail _ hm ih => exact hP _ _ ih hm

/-- Two stable assertions. -/
theorem Stable.and {P P' : σ → Prop} (h : Stable d P) (h' : Stable d P') : Stable d fun s => P s ∧ P' s :=
  fun s s' hp hm => ⟨h s s' hp.1 hm, h' s s' hp.2 hm⟩

section
variable {I P P' : σ → Prop} {Q Q' : α → σ → Prop}

/-! ## Soundness -/

theorem Holds.now {p : Prog R V α} {s : σ} (h : Holds d I Q p s) : I s := by
  cases p with
  | done a => exact (h s .refl).1
  | load r k => exact (h s .refl).1
  | store r v k => exact (h s .refl).1
  | await r cond k => exact (h s .refl).1

theorem Holds.step {c c' : Config R V σ α} (h : Holds d I Q c.prog c.state) (hs : Step d c c') :
    Holds d I Q c'.prog c'.state := by
  cases hs with
  | load => exact (h _ .refl).2
  | store => exact (h _ .refl).2
  | leave hc => exact (h _ .refl).2 hc
  | again hc => exact fun s' hw => h s' (.head (.inr ⟨hc, rfl⟩) hw)
  | @move p s s' hm =>
    cases p with
    | done a => exact fun s'' hs => h s'' (.head hm hs)
    | load r k => exact fun s'' hs => h s'' (.head hm hs)
    | store r v k => exact fun s'' hs => h s'' (.head hm hs)
    | await r cond k => exact fun s'' hs => h s'' (.head (.inl hm) hs)

theorem Triple.sound {p : Prog R V α} (h : Triple d I P p Q) {s : σ} (hp : P s) {c : Config R V σ α}
    (hs : Steps d ⟨p, s⟩ c) : I c.state ∧ ∀ a, c.prog = .done a → Q a c.state := by
  have hh : Holds d I Q c.prog c.state := by
    induction hs with
    | refl => exact h.holds s hp
    | tail _ hs ih => exact ih.step hs
  refine ⟨hh.now, fun a ha => ?_⟩
  rw [ha] at hh
  exact (hh _ .refl).2

/-! ## Programs that end

A program ends if no poll of it is in vain for good: from wherever `I` holds, the device can go on to
where the condition is met. -/

/-- Each poll of the program can be met. -/
def Met (d : Device R V σ) (I : σ → Prop) : Prog R V α → Prop
  | .done _ => True
  | .load _ k => ∀ v, Met d I (k v)
  | .store _ _ k => Met d I k
  | .await r cond k => (∀ s, I s → ∃ s', Moves d s s' ∧ cond (d.load s' r).1 = true) ∧ Met d I k

theorem Met.bind {f : α → Prog R V β} {p : Prog R V α} (hp : Met d I p) (hf : ∀ a, Met d I (f a)) :
    Met d I (p >>= f) := by
  induction p with
  | done a => exact hf a
  | load r k ih => exact fun v => ih v (hp v)
  | store r v k ih => exact ih hp
  | await r cond k ih => exact ⟨hp.1, ih hp.2⟩

theorem Met.step {c c' : Config R V σ α} (h : Met d I c.prog) (hs : Step d c c') : Met d I c'.prog := by
  cases hs with
  | load => exact h _
  | store => exact h
  | leave => exact h.2
  | again => exact h
  | move => exact h

theorem Steps.moves {p : Prog R V α} {s s' : σ} (h : Moves d s s') : Steps d ⟨p, s⟩ ⟨p, s'⟩ := by
  induction h with
  | refl => exact .refl
  | tail _ hm ih => exact ih.tail (.move hm)

/-- From wherever it has got to, the program can end. -/
theorem Triple.ends {p : Prog R V α} (h : Triple d I P p Q) (hm : Met d I p) {s : σ} (hp : P s) {c : Config R V σ α}
    (hs : Steps d ⟨p, s⟩ c) : ∃ a s', Steps d c ⟨.done a, s'⟩ := by
  have hc : Met d I c.prog := by
    induction hs with
    | refl => exact hm
    | tail _ hs ih => exact ih.step hs
  obtain ⟨prog, state⟩ := c
  induction prog generalizing state with
  | done a => exact ⟨a, state, .refl⟩
  | load r k ih =>
    obtain ⟨a, s', hd⟩ := ih _ _ (hs.tail .load) (hc _)
    exact ⟨a, s', .head .load hd⟩
  | store r v k ih =>
    obtain ⟨a, s', hd⟩ := ih _ (hs.tail .store) hc
    exact ⟨a, s', .head .store hd⟩
  | await r cond k ih =>
    obtain ⟨s', hmoves, hcond⟩ := hc.1 state (h.sound hp hs).1
    have hto : Steps d ⟨.await r cond k, state⟩ ⟨.await r cond k, s'⟩ := Steps.moves hmoves
    obtain ⟨a, s'', hd⟩ := ih _ ((hs.trans hto).tail (.leave hcond)) hc.2
    exact ⟨a, s'', hto.trans (.head (.leave hcond) hd)⟩

/-! ## The rules -/

theorem Triple.done {a : α} (hP : Stable d P) (hI : ∀ s, P s → I s) (h : ∀ s, P s → Q a s) : Triple d I P (.done a) Q :=
  ⟨fun _ hp s' hs => ⟨hI s' (hP.moves hp hs), h s' (hP.moves hp hs)⟩⟩

theorem Triple.load (P' : V → σ → Prop) {r : R} {k : V → Prog R V α} (hP : Stable d P) (hI : ∀ s, P s → I s)
    (h : ∀ s, P s → P' (d.load s r).1 (d.load s r).2) (hk : ∀ v, Triple d I (P' v) (k v) Q) :
    Triple d I P (.load r k) Q :=
  ⟨fun _ hp s' hs => ⟨hI s' (hP.moves hp hs), (hk _).holds _ (h s' (hP.moves hp hs))⟩⟩

theorem Triple.store (P' : σ → Prop) {r : R} {v : V} {k : Prog R V α} (hP : Stable d P) (hI : ∀ s, P s → I s)
    (h : ∀ s, P s → P' (d.store s r v)) (hk : Triple d I P' k Q) : Triple d I P (.store r v k) Q :=
  ⟨fun _ hp s' hs => ⟨hI s' (hP.moves hp hs), hk.holds _ (h s' (hP.moves hp hs))⟩⟩

theorem Triple.await (P' : σ → Prop) {r : R} {cond : V → Bool} {k : Prog R V α} (hP : Stable d P) (hI : ∀ s, P s → I s)
    (hagain : ∀ s, P s → cond (d.load s r).1 = false → P (d.load s r).2)
    (hleave : ∀ s, P s → cond (d.load s r).1 = true → P' (d.load s r).2) (hk : Triple d I P' k Q) :
    Triple d I P (.await r cond k) Q := by
  refine ⟨fun s hp s' hw => ?_⟩
  have hp' : P s' := by
    induction hw with
    | refl => exact hp
    | tail _ hs ih =>
      rcases hs with hm | ⟨hc, rfl⟩
      · exact hP _ _ ih hm
      · exact hagain _ ih hc
  exact ⟨hI s' hp', fun hc => hk.holds _ (hleave s' hp' hc)⟩

theorem Holds.conseq (h : ∀ a s, Q a s → Q' a s) {p : Prog R V α} : ∀ {s : σ}, Holds d I Q p s → Holds d I Q' p s := by
  induction p with
  | done a => exact fun hh s' hs => ⟨(hh s' hs).1, h a s' (hh s' hs).2⟩
  | load r k ih => exact fun hh s' hs => ⟨(hh s' hs).1, ih _ (hh s' hs).2⟩
  | store r v k ih => exact fun hh s' hs => ⟨(hh s' hs).1, ih (hh s' hs).2⟩
  | await r cond k ih => exact fun hh s' hs => ⟨(hh s' hs).1, fun hc => ih ((hh s' hs).2 hc)⟩

theorem Holds.bind {J : β → σ → Prop} {f : α → Prog R V β} {p : Prog R V α} : ∀ {s : σ},
    Holds d I (fun a s => Holds d I J (f a) s) p s → Holds d I J (p >>= f) s := by
  induction p with
  | done a => exact fun h => (h _ .refl).2
  | load r k ih => exact fun h s' hs => ⟨(h s' hs).1, ih _ (h s' hs).2⟩
  | store r v k ih => exact fun h s' hs => ⟨(h s' hs).1, ih (h s' hs).2⟩
  | await r cond k ih => exact fun h s' hs => ⟨(h s' hs).1, fun hc => ih ((h s' hs).2 hc)⟩

theorem Triple.bind {J : β → σ → Prop} {f : α → Prog R V β} {p : Prog R V α} (hp : Triple d I P p Q)
    (hf : ∀ a, Triple d I (Q a) (f a) J) : Triple d I P (p >>= f) J :=
  ⟨fun s h => Holds.bind ((hp.holds s h).conseq fun a s' hq => (hf a).holds s' hq)⟩

theorem Triple.pre {p : Prog R V α} (h : Triple d I P p Q) (hp : ∀ s, P' s → P s) : Triple d I P' p Q :=
  ⟨fun s h' => h.holds s (hp s h')⟩

theorem Triple.post {p : Prog R V α} (h : Triple d I P p Q) (hq : ∀ a s, Q a s → Q' a s) : Triple d I P p Q' :=
  ⟨fun s h' => (h.holds s h').conseq hq⟩

end

end OpenGpos.Lib.Mmio
