/-
  OpenGpos.Sd.Cycles — a card that is shut down and started again. SDShutdown takes the card back to
  its idle state, where it refuses to read, and a later SDInit starts it anew. Seen through SD.c a
  card is on or off: `results` says what each call brings then, and on a port that is slower than the
  processor any sequence of calls brings just that (`calls_in_cycles`).
-/
import OpenGpos.Sd.Session

namespace OpenGpos.Sd

open OpenGpos.Lib.Fifo

/-- The calls that write no block. -/
inductive CardCall where
  | init
  | read (c : ReadCall)
  | shutdown

namespace CardCall

/-- Behind a call that has no buffer, nothing is in it. -/
def prog : CardCall → SpiProg (Bool × List UInt8)
  | init => do
    let ok ← sdInit
    pure (ok, [])
  | read c => c.prog
  | shutdown => do
    let ok ← sdShutdown
    pure (ok, [])

def Fits : CardCall → Prop
  | read c => c.Fits
  | _ => True

/-! ## On and off -/

/-- What a call brings, and whether the card is on behind it. SDInit does not turn off a card
    without block addresses, though it returns false. -/
def result (card : SdhcCard) (on : Bool) : CardCall → (Bool × List UInt8) × Bool
  | init => ((decide (card.busy < 5000 ∧ card.ocr0 &&& 0x40 ≠ 0), []), decide (card.busy < 5000))
  | read c => (if on then c.expected card.toCard else (false, []), on)
  | shutdown => ((true, []), false)

end CardCall

/-- The calls one after the other. -/
def results (card : SdhcCard) : Bool → List CardCall → List (Bool × List UInt8)
  | _, [] => []
  | on, c :: calls => (c.result card on).1 :: results card (c.result card on).2 calls

def callAll : List CardCall → SpiProg (List (Bool × List UInt8))
  | [] => pure []
  | c :: calls => do
    let r ← c.prog
    let rs ← callAll calls
    pure (r :: rs)

/-! ## The calls on the port -/

section
variable {card : SdhcCard} {p : Phase}

theorem serves_sdShutdown (card : SdhcCard) (p : Phase) : ∃ p',
    Serves card.respond p sdShutdown true p' ∧ p'.ready = false := by
  refine ⟨⟨p.count + 1, false, false, 0⟩, ?_, rfl⟩
  refine serves_r1 _ 0x01 [] (by decide) (respond_goIdle card p) (by decide) (.rest ?_)
  rw [if_pos rfl]
  exact .deassert (.pure true)

/-- Both reads begin alike, and a card that is off refuses CMD17. -/
theorem serves_refused {α : Type} (hp : p.ready = false) (a : UInt32) (x : α) (rest : SpiProg α) : ∃ p',
    Serves card.respond p (sdSendCommand 0x51 a 0x01 >>= fun _ => readR1Response 0xFF >>= fun cmd17R1 =>
      if cmd17R1 ≠ 0x00 then deassertCS >>= fun _ => pure x else rest) x p' ∧ p'.ready = false := by
  let q : Phase := { p with count := p.count + 1, app := false }
  have hq : q.r1 = 0x01 := by
    unfold Phase.r1
    rw [show q.ready = false from hp]
    rfl
  refine ⟨q, ?_, hp⟩
  refine serves_r1 q 0x05 [] (by decide) ?_ (by decide) (.rest ?_)
  · show card.respond p _ = (q, card.reply p.count (0x04 ||| 0x01) [])
    rw [← hq]
    simp [SdhcCard.respond, hp, q]
  · rw [if_pos (by decide)]
    exact .deassert (.pure x)

theorem ReadCall.serves_off (hp : p.ready = false) (c : ReadCall) : ∃ p',
    Serves card.respond p c.prog (false, []) p' ∧ p'.ready = false := by
  cases c with
  | block a => exact serves_refused hp a _ _
  | part a offset length => exact serves_refused hp a _ _

/-- One call does what `CardCall.result` says. -/
theorem CardCall.serves (hin : ∀ i, card.InTime i) (p : Phase) {c : CardCall} (hc : c.Fits) : ∃ p',
    Serves card.respond p c.prog (c.result card p.ready).1 p' ∧ p'.ready = (c.result card p.ready).2 := by
  cases c with
  | init =>
    obtain ⟨p', h, hr⟩ := serves_sdInit card p
    exact ⟨p', h.bind (.pure _), hr⟩
  | read c =>
    cases hp : p.ready with
    | false => exact ReadCall.serves_off hp c
    | true => exact ReadCall.serves hin hp hc
  | shutdown =>
    obtain ⟨p', h, hr⟩ := serves_sdShutdown card p
    exact ⟨p', h.bind (.pure _), hr⟩

theorem serves_callAll (hin : ∀ i, card.InTime i) (calls : List CardCall) : ∀ p : Phase, (∀ c ∈ calls, c.Fits) → ∃ p',
    Serves card.respond p (callAll calls) (results card p.ready calls) p' := by
  induction calls with
  | nil => exact fun p _ => ⟨p, .pure []⟩
  | cons c calls ih =>
    intro p hc
    obtain ⟨p', h, hr⟩ := CardCall.serves hin p (hc c List.mem_cons_self)
    obtain ⟨p'', h'⟩ := ih p' fun c' hc' => hc c' (List.mem_cons_of_mem _ hc')
    rw [hr] at h'
    exact ⟨p'', h.bind (h'.bind (.pure _))⟩

/-- Any sequence of calls brings what it brings of a card that is on or off, on a port that is slower
    than the processor and with every delay of the card that keeps its tokens off the last poll. -/
theorem calls_in_cycles (card : SdhcCard) (hin : ∀ i, card.InTime i) {calls : List CardCall}
    (hfit : ∀ c ∈ calls, c.Fits) {m n : Nat} (hm : m ≤ fifoDepth) (hn : n ≤ fifoDepth) (p : Phase) : ∃ tx rx s, ∀ c,
      PromptSteps fifoDepth (listen card.respond) ⟨callAll calls, idle m, idle n, ⟨p, [], []⟩⟩ c →
      PromptSteps fifoDepth (listen card.respond) c ⟨.done (results card p.ready calls), tx, rx, s⟩ := by
  obtain ⟨p', h⟩ := serves_callAll hin calls p hfit
  exact h.outcome hm hn

end

/-- Read before the start, read, shut down, and the same again. -/
theorem calls_in_cycles_twice : ∃ tx rx s, ∀ c,
    PromptSteps fifoDepth (listen zeroSdhc.respond)
      ⟨callAll [.read (.block 0), .init, .read (.block 0), .shutdown, .read (.block 0), .init, .read (.part 0 508 4)],
        [], [], ⟨⟨0, false, false, 0⟩, [], []⟩⟩ c →
    PromptSteps fifoDepth (listen zeroSdhc.respond) c
      ⟨.done (results zeroSdhc false
        [.read (.block 0), .init, .read (.block 0), .shutdown, .read (.block 0), .init, .read (.part 0 508 4)]),
        tx, rx, s⟩ :=
  calls_in_cycles (m := 0) (n := 0) zeroSdhc zeroCard_inTime
    (by
      intro c hc
      simp only [List.mem_cons, List.not_mem_nil, or_false] at hc
      rcases hc with rfl | rfl | rfl | rfl | rfl | rfl | rfl
      · trivial
      · trivial
      · trivial
      · trivial
      · trivial
      · trivial
      · exact Nat.le_refl 512) (Nat.zero_le _) (Nat.zero_le _) ⟨0, false, false, 0⟩

end OpenGpos.Sd
