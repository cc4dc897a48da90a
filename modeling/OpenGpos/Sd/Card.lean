/-
  OpenGpos.Sd.Card — a card that reads blocks. To a command of six bytes it answers with an R1
  of 0x00 after a few bytes and, to CMD17, with the start token, the block and a CRC after
  some more. While it sends it does not listen, and where it has nothing to send it sends
  0xFF. How long it takes is up to the card, for each command anew.

  `Feeds` says what the driver will read from a queue and the card behind it as long as it
  sends nothing but 0xFF: the untimed port of `Lib.Flow` turns it into results.
-/
import OpenGpos.Lib.Flow
import OpenGpos.Sd.Driver

namespace OpenGpos.Sd

open OpenGpos.Lib.Fifo

structure Card where
  block : UInt32 → List UInt8
  length_block : ∀ a, (block a).length = sdBlockSize
  /-- How many bytes behind a command its R1 comes. -/
  ncr : Nat → Nat
  ncr_range : ∀ i, 1 ≤ ncr i ∧ ncr i ≤ 8
  /-- How many bytes are between R1 and the token: below the limit of the driver's poll. -/
  nac : Nat → Nat
  nac_limit : ∀ i, nac i < 0xFFFF
  crc : Nat → UInt8 × UInt8

structure CardState where
  /-- The commands answered. -/
  count : Nat
  /-- What was received of a command. -/
  command : List UInt8
  /-- What is to be sent. -/
  pending : List UInt8

namespace Card

def bodyOf (card : Card) (i : Nat) (a : UInt32) : List UInt8 := card.block a ++ [(card.crc i).1, (card.crc i).2]

def blockOf (card : Card) (i : Nat) (a : UInt32) : List UInt8 := idle (card.nac i) ++ 0xFE :: card.bodyOf i a

def address (a3 a2 a1 a0 : UInt8) : UInt32 :=
  UInt32.ofNat (a3.toNat * 2 ^ 24 + a2.toNat * 2 ^ 16 + a1.toNat * 2 ^ 8 + a0.toNat)

/-- The answer to the `i`-th command. -/
def response (card : Card) (i : Nat) : List UInt8 → List UInt8
  | [0x51, a3, a2, a1, a0, _] => idle (card.ncr i - 1) ++ 0x00 :: card.blockOf i (address a3 a2 a1 a0)
  | _ => idle (card.ncr i - 1) ++ [0x00]

def answer (card : Card) (s : CardState) (b : UInt8) : CardState × UInt8 :=
  match s.pending with
  | r :: rest => ({ s with pending := rest }, r)
  | [] =>
    if s.command = [] ∧ b &&& 0xC0 ≠ 0x40 then (s, 0xFF)
    else
      let command := s.command ++ [b]
      if command.length < 6 then ({ s with command := command }, 0xFF)
      else (⟨s.count + 1, [], card.response s.count command⟩, 0xFF)

end Card

/-- The token of the answer to the `i`-th command is not the byte of the last poll, with which the
    driver's timeout is used up. -/
def Card.InTime (card : Card) (i : Nat) : Prop := card.nac i + 1 < 0xFFFF

/-- The card waits for a command. -/
def waiting (i : Nat) : CardState := ⟨i, [], []⟩

section
variable {card : Card}

theorem address_args (args : UInt32) :
    Card.address (args >>> 24).toUInt8 (args >>> 16).toUInt8 (args >>> 8).toUInt8 args.toUInt8 = args := by
  have h := args.toNat_lt
  unfold Card.address
  rw [← UInt32.toNat_inj, UInt32.toNat_ofNat']
  simp only [UInt32.toNat_toUInt8, UInt32.toNat_shiftRight, UInt32.reduceToNat, Nat.shiftRight_eq_div_pow,
    Nat.reduceMod, Nat.reducePow]
  omega

/-! ## What is still to be read -/

/-- While the card is sent 0xFF, the queue and then the card bring `l`, and 0xFF behind it. -/
def Feeds (q : List UInt8) (s : CardState) (l : List UInt8) : Prop :=
  s.command = [] ∧ ∀ i, (q ++ s.pending).getD i 0xFF = l.getD i 0xFF

theorem feeds_self (q : List UInt8) (i : Nat) (pending : List UInt8) : Feeds q ⟨i, [], pending⟩ (q ++ pending) :=
  ⟨rfl, fun _ => rfl⟩

variable (card) in
theorem Feeds.push {q : List UInt8} {s : CardState} {l : List UInt8} (h : Feeds q s l) :
    Feeds (q ++ [(card.answer s 0xFF).2]) (card.answer s 0xFF).1 l := by
  obtain ⟨i, cs, pending⟩ := s
  obtain ⟨rfl, hg⟩ : cs = [] ∧ _ := h
  cases pending with
  | nil =>
    refine ⟨rfl, fun i => ?_⟩
    rw [← hg i]
    show (q ++ [0xFF] ++ []).getD i 0xFF = (q ++ []).getD i 0xFF
    simp only [List.append_nil, List.getD_eq_getElem?_getD, List.getElem?_append]
    by_cases hl : i < q.length
    · rw [if_pos hl]
    · have hn : q[i]? = none := List.getElem?_eq_none (by omega)
      rw [if_neg hl, hn]
      cases i - q.length <;> rfl
  | cons r rest =>
    refine ⟨rfl, fun i => ?_⟩
    rw [← hg i]
    show (q ++ [r] ++ rest).getD i 0xFF = (q ++ r :: rest).getD i 0xFF
    rw [List.append_assoc]
    rfl

theorem Feeds.pop {q : List UInt8} {s : CardState} {r r' : UInt8} {l : List UInt8} (h : Feeds (r :: q) s (r' :: l)) :
    r = r' ∧ Feeds q s l :=
  ⟨h.2 0, h.1, fun i => h.2 (i + 1)⟩

/-! ## The loops of the driver -/

/-- From any queue that brings `l`, the program results in `a` and leaves a queue as long as
    before that brings `l'`. -/
def Yields {α : Type} (card : Card) (p : SpiProg α) (l : List UInt8) (a : α) (l' : List UInt8) : Prop :=
  ∀ q s, 1 ≤ q.length → q.length ≤ fifoDepth → Feeds q s l →
    ∃ q' s', Flow fifoDepth card.answer p q s a q' s' ∧ q'.length = q.length ∧ Feeds q' s' l'

section
variable {α β : Type} {l l' l'' : List UInt8}

theorem Yields.pure (a : α) (l : List UInt8) : Yields card (Pure.pure a) l a l :=
  fun q s _ _ h => ⟨q, s, .done, rfl, h⟩

theorem Yields.bind {p : SpiProg α} {f : α → SpiProg β} {a : α} {b : β} (hp : Yields card p l a l')
    (hf : Yields card (f a) l' b l'') : Yields card (p >>= f) l b l'' := by
  intro q s h1 h8 h
  obtain ⟨q', s', hflow, hl, h'⟩ := hp q s h1 h8 h
  obtain ⟨q'', s'', hflow', hl', h''⟩ := hf q' s' (by omega) (by omega) h'
  exact ⟨q'', s'', hflow.bind hflow', by omega, h''⟩

/-- A read and its dummy byte. -/
theorem Yields.turn {k : UInt8 → SpiProg α} {r : UInt8} {a : α} (hk : Yields card (k r) l a l') :
    Yields card (.pop fun b => .push 0xFF (k b)) (r :: l) a l' := by
  intro q s h1 h8 h
  cases q with
  | nil => cases h1
  | cons r0 q =>
    obtain ⟨rfl, h'⟩ := h.pop
    rw [List.length_cons] at h8
    obtain ⟨q', s', hflow, hl, hfeeds⟩ := hk _ _ (by simp) (by simpa using h8) (h'.push card)
    refine ⟨q', s', .pop (.push (by omega) hflow), ?_, hfeeds⟩
    rw [hl, List.length_append]
    rfl

/-- A loop that polls until a byte other than 0xFF comes. -/
theorem yields_poll (loop : Nat → SpiProg α) (out : UInt8 → Nat → α)
    (hloop : ∀ t, loop (t + 1) = .pop fun r => .push 0xFF (if r = 0xFF ∧ 0 < t then loop t else pure (out r t)))
    {r : UInt8} (hr : r ≠ 0xFF) : ∀ {j timeout : Nat}, j < timeout →
    Yields card (loop timeout) (idle j ++ r :: l) (out r (timeout - (j + 1))) l := by
  intro j
  induction j with
  | zero =>
    intro timeout ht
    obtain ⟨timeout, rfl⟩ := Nat.exists_eq_add_one_of_ne_zero (show timeout ≠ 0 by omega)
    rw [hloop]
    refine Yields.turn ?_
    rw [if_neg fun h => hr h.1]
    exact .pure _ l
  | succ j ih =>
    intro timeout ht
    obtain ⟨timeout, rfl⟩ := Nat.exists_eq_add_one_of_ne_zero (show timeout ≠ 0 by omega)
    have h := @ih timeout (by omega)
    rw [show timeout - (j + 1) = timeout + 1 - (j + 1 + 1) by omega] at h
    rw [hloop]
    refine Yields.turn ?_
    rw [if_pos ⟨rfl, by omega⟩]
    exact h

theorem yields_readR1Response {r : UInt8} (hr : r ≠ 0xFF) {j timeout : Nat} (h : j < timeout) :
    Yields card (readR1Response timeout) (idle j ++ r :: l) r l :=
  yields_poll readR1Response (fun r _ => r) (fun _ => rfl) hr h

variable (card) in
/-- A card that is too slow. -/
theorem yields_readR1Response_timeout (l : List UInt8) : ∀ {j timeout : Nat}, timeout ≤ j →
    ∃ l', Yields card (readR1Response timeout) (idle j ++ l) 0xFF l' := by
  intro j
  induction j with
  | zero =>
    intro timeout ht
    obtain rfl : timeout = 0 := by omega
    exact ⟨_, .pure _ _⟩
  | succ j ih =>
    intro timeout ht
    cases timeout with
    | zero => exact ⟨_, .pure _ _⟩
    | succ timeout =>
      obtain ⟨l', h⟩ := @ih timeout (by omega)
      by_cases h0 : 0 < timeout
      · refine ⟨l', Yields.turn ?_⟩
        rw [if_pos ⟨rfl, h0⟩]
        exact h
      · refine ⟨idle j ++ l, Yields.turn ?_⟩
        rw [if_neg fun h => h0 h.2]
        exact .pure _ _

theorem yields_readToken {r : UInt8} (hr : r ≠ 0xFF) {j timeout : Nat} (h : j < timeout) :
    Yields card (readToken timeout) (idle j ++ r :: l) (r, timeout - (j + 1)) l :=
  yields_poll readToken Prod.mk (fun _ => rfl) hr h

theorem yields_readBytes (bs : List UInt8) : Yields card (readBytes bs.length) (bs ++ l) bs l := by
  induction bs with
  | nil => exact .pure _ l
  | cons b bs ih => exact Yields.turn (ih.bind (.pure _ l))

end

/-! ## A command -/

theorem answer_first (i : Nat) : card.answer (waiting i) 0x51 = (⟨i, [0x51], []⟩, 0xFF) := rfl

theorem answer_next (i : Nat) (c b : UInt8) (cs : List UInt8) (h : cs.length < 4) :
    card.answer ⟨i, c :: cs, []⟩ b = (⟨i, c :: (cs ++ [b]), []⟩, 0xFF) := by
  have hl : (c :: (cs ++ [b])).length < 6 := by simp; omega
  have hc : ¬(c :: cs = [] ∧ b &&& 0xC0 ≠ 0x40) := fun h => nomatch h.1
  simp only [Card.answer, if_neg hc, List.cons_append, if_pos hl]

theorem answer_sixth (i : Nat) (c b : UInt8) (cs : List UInt8) (h : cs.length = 4) :
    card.answer ⟨i, c :: cs, []⟩ b = (⟨i + 1, [], card.response i (c :: (cs ++ [b]))⟩, 0xFF) := by
  have hl : ¬(c :: (cs ++ [b])).length < 6 := by simp; omega
  have hc : ¬(c :: cs = [] ∧ b &&& 0xC0 ≠ 0x40) := fun h => nomatch h.1
  simp only [Card.answer, if_neg hc, List.cons_append, if_neg hl]

theorem answer_last (i : Nat) (a3 a2 a1 a0 b : UInt8) :
    card.answer ⟨i, [0x51, a3, a2, a1, a0], []⟩ b =
      (⟨i + 1, [], idle (card.ncr i - 1) ++ 0x00 :: card.blockOf i (Card.address a3 a2 a1 a0)⟩, 0xFF) := rfl

/-- What the card sends after a CMD17 to `a`. -/
def Card.reply (card : Card) (i : Nat) (a : UInt32) : List UInt8 := idle (card.ncr i - 1) ++ 0x00 :: card.blockOf i a

theorem flow_push_idle {α : Type} {b : UInt8} {k : SpiProg α} {n : Nat} {s s' s'' : CardState} {q' : List UInt8} {a : α}
    (hn : n < fifoDepth) (ha : card.answer s b = (s', 0xFF)) (h : Flow fifoDepth card.answer k (idle (n + 1)) s' a q' s'') :
    Flow fifoDepth card.answer (.push b k) (idle n) s a q' s'' := by
  refine .push (by rw [idle, List.length_replicate]; exact hn) ?_
  rw [ha]
  have he : idle n ++ [0xFF] = idle (n + 1) := List.replicate_succ'.symm
  exact he ▸ h

variable (card) in
theorem flow_sdSendCommand {n : Nat} (hn : n ≤ 1) (i : Nat) (a : UInt32) : ∃ q s,
    Flow fifoDepth card.answer (sdSendCommand 0x51 a 0x01) (idle n) (waiting i) () q s ∧ q.length = n + 7 ∧
      Feeds q s (idle (n + 6) ++ card.reply i a) := by
  have hf := feeds_self (idle (n + 6)) (i + 1) (card.reply i a)
  have hn8 : n + 6 < fifoDepth := by unfold fifoDepth; omega
  refine ⟨_, _, ?_, ?_, hf.push card⟩
  · refine flow_push_idle (by omega) (answer_first i) ?_
    refine flow_push_idle (by omega) (answer_next i _ _ _ (by simp)) ?_
    refine flow_push_idle (by omega) (answer_next i _ _ _ (by simp)) ?_
    refine flow_push_idle (by omega) (answer_next i _ _ _ (by simp)) ?_
    refine flow_push_idle (by omega) (answer_next i _ _ _ (by simp)) ?_
    refine flow_push_idle (by omega) (answer_last i _ _ _ _ _) ?_
    rw [address_args]
    refine .push (by rw [idle, List.length_replicate]; exact hn8) .done
  · simp [idle]

end

end OpenGpos.Sd
