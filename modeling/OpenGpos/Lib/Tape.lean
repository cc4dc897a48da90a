/-
  OpenGpos.Lib.Tape — programs that emit events and take what comes next on a tape. `play` is the
  whole run: the value, how far the tape was taken, and the events. A program of a serial port
  (`Prog`) is one whose events are what it pushes; `erase` forgets the events that are no push.
-/
import OpenGpos.Lib.Fifo

namespace OpenGpos.Lib.Tape

open OpenGpos.Lib.Fifo

variable {E B α β : Type}

inductive Proc (E B α : Type) where
  | done (a : α)
  | emit (e : E) (k : Proc E B α)
  | take (k : B → Proc E B α)

namespace Proc

def bind : Proc E B α → (α → Proc E B β) → Proc E B β
  | done a, f => f a
  | emit e k, f => emit e (k.bind f)
  | take k, f => take fun b => (k b).bind f

instance : Monad (Proc E B) where
  pure := done
  bind := bind

def tell (e : E) : Proc E B Unit := emit e (done ())

@[simp] theorem pure_eq (a : α) : (pure a : Proc E B α) = done a := rfl
@[simp] theorem done_bind (a : α) (f : α → Proc E B β) : (done a >>= f) = f a := rfl
@[simp] theorem emit_bind (e : E) (k : Proc E B α) (f : α → Proc E B β) : (emit e k >>= f) = emit e (k >>= f) := rfl
@[simp] theorem take_bind (k : B → Proc E B α) (f : α → Proc E B β) : (take k >>= f) = take fun b => k b >>= f := rfl
@[simp] theorem tell_bind (e : E) (f : Unit → Proc E B β) : (tell e >>= f) = emit e (f ()) := rfl

/-- A program of a port, its pushes as events. -/
def ofProg (f : B → E) : Prog B α → Proc E B α
  | .done a => done a
  | .push b k => emit (f b) (ofProg f k)
  | .pop k => take fun b => ofProg f (k b)

/-- The pushes among the events. -/
def erase (g : E → Option B) : Proc E B α → Prog B α
  | done a => .done a
  | emit e k =>
    match g e with
    | some b => .push b (erase g k)
    | none => erase g k
  | take k => .pop fun b => erase g (k b)

variable {f : B → E} {g : E → Option B}

@[simp] theorem erase_done (a : α) : erase g (done a : Proc E B α) = .done a := rfl

@[simp] theorem erase_bind (p : Proc E B α) (k : α → Proc E B β) : erase g (p >>= k) = erase g p >>= fun a => erase g (k a) := by
  induction p with
  | done a => rfl
  | emit e p ih =>
    rw [emit_bind, erase, erase]
    cases g e with
    | none => exact ih
    | some b => exact congrArg (Prog.push b) ih
  | take p ih => exact congrArg Prog.pop (funext ih)

theorem erase_ofProg (h : ∀ b, g (f b) = some b) (p : Prog B α) : erase g (ofProg f p) = p := by
  induction p with
  | done a => rfl
  | push b k ih =>
    rw [ofProg, erase, h b]
    exact congrArg (Prog.push b) ih
  | pop k ih => exact congrArg Prog.pop (funext ih)

@[simp] theorem erase_ite (c : Prop) [Decidable c] (p q : Proc E B α) :
    erase g (if c then p else q) = if c then erase g p else erase g q :=
  apply_ite (erase g) c p q

end Proc

/-! ## Runs -/

/-- What a run comes to: the value, the place on the tape, the events. -/
structure Played (E α : Type) where
  value : α
  place : Nat
  events : List E

/-- The run from place `i` of a tape. -/
def Proc.play (tape : Nat → B) : Proc E B α → Nat → Played E α
  | .done a, i => ⟨a, i, []⟩
  | .emit e k, i => let r := k.play tape i; ⟨r.value, r.place, e :: r.events⟩
  | .take k, i => (k (tape i)).play tape (i + 1)

def playProg (tape : Nat → B) (p : Prog B α) (i : Nat) : Played B α := (Proc.ofProg id p).play tape i

variable {tape : Nat → B}

@[simp] theorem playProg_done (a : α) (i : Nat) : playProg tape (.done a) i = ⟨a, i, []⟩ := rfl
@[simp] theorem playProg_pop (k : B → Prog B α) (i : Nat) : playProg tape (.pop k) i = playProg tape (k (tape i)) (i + 1) := rfl

@[simp] theorem playProg_push (b : B) (k : Prog B α) (i : Nat) :
    playProg tape (.push b k) i = let r := playProg tape k i; ⟨r.value, r.place, b :: r.events⟩ := rfl

/-- One program behind another. -/
theorem play_bind (p : Proc E B α) (k : α → Proc E B β) : ∀ i : Nat, (p >>= k).play tape i =
    let r := p.play tape i
    let r' := (k r.value).play tape r.place
    ⟨r'.value, r'.place, r.events ++ r'.events⟩ := by
  induction p with
  | done a => exact fun i => rfl
  | emit e p ih =>
    intro i
    rw [Proc.emit_bind, Proc.play, ih]
    rfl
  | take p ih => exact fun i => ih (tape i) (i + 1)

theorem ofProg_bind (f : B → E) (p : Prog B α) (k : α → Prog B β) :
    Proc.ofProg f (p >>= k) = Proc.ofProg f p >>= fun a => Proc.ofProg f (k a) := by
  induction p with
  | done a => rfl
  | push b p ih => exact congrArg (Proc.emit (f b)) ih
  | pop p ih => exact congrArg Proc.take (funext ih)

/-- A port's program behind another. -/
theorem playProg_bind (p : Prog B α) (k : α → Prog B β) (i : Nat) : playProg tape (p >>= k) i =
    let r := playProg tape p i
    let r' := playProg tape (k r.value) r.place
    ⟨r'.value, r'.place, r.events ++ r'.events⟩ := by
  unfold playProg
  rw [ofProg_bind, play_bind]

theorem playProg_bind_value (p : Prog B α) (k : α → Prog B β) (i : Nat) : (playProg tape (p >>= k) i).value =
    (playProg tape (k (playProg tape p i).value) (playProg tape p i).place).value := by
  rw [playProg_bind]

/-- The run of a port's program, whatever its pushes are called. -/
theorem play_ofProg (f : B → E) (p : Prog B α) : ∀ i : Nat, (Proc.ofProg f p).play tape i =
    ⟨(playProg tape p i).value, (playProg tape p i).place, (playProg tape p i).events.map f⟩ := by
  induction p with
  | done a => exact fun i => rfl
  | push b p ih =>
    intro i
    rw [Proc.ofProg, Proc.play, ih]
    rfl
  | pop p ih => exact fun i => ih (tape i) (i + 1)

/-- The run of the pushes alone: it takes the same bytes and comes to the same value. -/
theorem play_erase (g : E → Option B) (p : Proc E B α) : ∀ i : Nat, playProg tape (p.erase g) i =
    ⟨(p.play tape i).value, (p.play tape i).place, (p.play tape i).events.filterMap g⟩ := by
  induction p with
  | done a => exact fun i => rfl
  | emit e p ih =>
    intro i
    cases he : g e with
    | none =>
      rw [Proc.erase, he, Proc.play]
      dsimp only
      rw [ih, List.filterMap_cons_none he]
    | some b =>
      rw [Proc.erase, he, Proc.play, playProg_push, ih]
      dsimp only
      rw [List.filterMap_cons_some he]
  | take p ih => exact fun i => ih (tape i) (i + 1)

end OpenGpos.Lib.Tape
