/-
  OpenGpos.Sd.Session — a whole session with a card on a port that is slower than the processor. The
  card takes part in the initialisation: it checks the CRC of CMD0 and CMD8, is busy for any number
  of ACMD41, and reads blocks once it is ready. SDInit tells exactly whether it became ready in time
  and has block addresses (`sdInit_decides`); behind it every read brings its bytes, however many
  reads there are (`session_reads`).
-/
import OpenGpos.Lib.Crc
import OpenGpos.Sd.Card
import OpenGpos.Sd.Link
import OpenGpos.Sd.Readers
import OpenGpos.Sd.Timing

namespace OpenGpos.Sd

open OpenGpos.Lib.Crc OpenGpos.Lib.Fifo

/-! ## The card -/

/-- The blocks and the delays are those of `Card`. -/
structure SdhcCard extends Card where
  /-- How many ACMD41 find the card busy. -/
  busy : Nat
  ocr0 : UInt8
  ocr1 : UInt8
  ocr2 : UInt8
  ocr3 : UInt8

structure Phase where
  /-- The commands answered. -/
  count : Nat
  ready : Bool
  /-- The command before was CMD55. -/
  app : Bool
  /-- The ACMD41 since the last CMD0. -/
  polls : Nat

/-- The last byte is the CRC-7 of the others and a stop bit. -/
def crc7Ok (command : List UInt8) : Bool :=
  let crc : BitVec 7 := crcBits 0x09#7 0#7 ((command.take 5).flatMap fun b => msbFirst b.toBitVec)
  command.getD 5 0 == (crc.setWidth 8 <<< 1 ||| 1#8 : BitVec 8).toNat.toUInt8

def Phase.r1 (p : Phase) : UInt8 := if p.ready then 0x00 else 0x01

namespace SdhcCard

/-- R1 comes a few bytes behind the command. -/
def reply (card : SdhcCard) (i : Nat) (r1 : UInt8) (more : List UInt8) : List UInt8 :=
  idle (card.ncr i - 1) ++ r1 :: more

def respond (card : SdhcCard) (p : Phase) (command : List UInt8) : Phase × List UInt8 :=
  let next : Phase := { p with count := p.count + 1, app := false }
  match command with
  | [c, a3, a2, a1, a0, _] =>
    if (c = 0x40 ∨ c = 0x48) ∧ crc7Ok command = false then (next, card.reply p.count (0x08 ||| next.r1) [])
    else if c = 0x40 then
      let next := { next with ready := false, polls := 0 }
      (next, card.reply p.count next.r1 [])
    else if c = 0x48 then (next, card.reply p.count next.r1 [0x00, 0x00, a1 &&& 0x0F, a0])
    else if c = 0x77 then ({ next with app := true }, card.reply p.count next.r1 [])
    else if c = 0x69 ∧ p.app = true then
      let next := { next with
        ready := p.ready || (a3 &&& 0x40 != 0 && decide (card.busy ≤ p.polls))
        polls := p.polls + 1 }
      (next, card.reply p.count next.r1 [])
    else if c = 0x7A then (next, card.reply p.count next.r1 [card.ocr0, card.ocr1, card.ocr2, card.ocr3])
    else if c = 0x51 ∧ p.ready = true then
      (next, card.reply p.count 0x00 (card.blockOf p.count (Card.address a3 a2 a1 a0)))
    else (next, card.reply p.count (0x04 ||| next.r1) [])
  | _ => (next, [])

end SdhcCard

section
variable {card : SdhcCard} {p : Phase} {α : Type}

/-! ## SDInit -/

theorem r1_ne (p : Phase) : p.r1 ≠ 0xFF := by
  unfold Phase.r1
  split <;> decide

/-- A command whose R1 is read. -/
theorem serves_r1 (p' : Phase) (r1 : UInt8) (more : List UInt8) {c crc : UInt8} {args : UInt32} (hc : c &&& 0xC0 = 0x40)
    {p'' : Phase} (hr : card.respond p [c, (args >>> 24).toUInt8, (args >>> 16).toUInt8, (args >>> 8).toUInt8,
    args.toUInt8, crc] =
      (p', card.reply p.count r1 more)) (h1 : r1 ≠ 0xFF) {f : UInt8 → SpiProg α} {a : α}
    (hf : Meets card.respond p' more (f r1) a p'') :
    Serves card.respond p (sdSendCommand c args crc >>= fun _ => readR1Response 0xFF >>= f) a p'' := by
  refine .command hc hr fun j hj => ?_
  have hn := card.ncr_range p.count
  have hl : idle j ++ card.reply p.count r1 more = idle (j + (card.ncr p.count - 1)) ++ r1 :: more := by
    unfold SdhcCard.reply
    rw [← List.append_assoc, idle_append]
  rw [hl]
  exact .read (reads_readR1Response h1 (by omega)) hf

/-- The loop of CMD55 and ACMD41, while the card is not ready. -/
theorem serves_acmd41 (card : SdhcCard) (n : Nat) : ∀ p : Phase, p.ready = false → p.polls ≤ card.busy →
    ∃ p', Serves card.respond p (acmd41 n) (decide (card.busy < p.polls + n)) p' ∧
      p'.ready = decide (card.busy < p.polls + n) := by
  induction n with
  | zero =>
    intro p hnot hp
    have hn : ¬card.busy < p.polls + 0 := by omega
    rw [decide_eq_false hn]
    exact ⟨p, .pure false, hnot⟩
  | succ n ih =>
    intro p hnot hp
    -- behind the two commands
    let q : Phase := ⟨p.count + 1 + 1, decide (card.busy ≤ p.polls), false, p.polls + 1⟩
    obtain ⟨p', hs, hready⟩ : ∃ p', Serves card.respond q (if q.r1 = 0x00 then pure true else acmd41 n)
        (decide (card.busy < p.polls + (n + 1))) p' ∧ p'.ready = decide (card.busy < p.polls + (n + 1)) := by
      by_cases hb : card.busy ≤ p.polls
      · have hq : q.ready = true := decide_eq_true hb
        have h1 : q.r1 = 0x00 := if_pos hq
        rw [if_pos h1, decide_eq_true (show card.busy < p.polls + (n + 1) by omega)]
        exact ⟨q, .pure true, hq⟩
      · have hq : q.ready = false := decide_eq_false hb
        have h1 : q.r1 ≠ 0x00 := by
          unfold Phase.r1
          rw [hq]
          decide
        rw [if_neg h1]
        obtain ⟨p', hs, hready⟩ := ih q hq (show p.polls + 1 ≤ card.busy by omega)
        have he : q.polls + n = p.polls + (n + 1) := show p.polls + 1 + n = _ by omega
        rw [he] at hs hready
        exact ⟨p', hs, hready⟩
    refine ⟨p', ?_, hready⟩
    rw [acmd41]
    have hr1 : ({ p with count := p.count + 1, app := false } : Phase).r1 = 0x01 := by
      unfold Phase.r1
      rw [hnot]
      rfl
    refine serves_r1 { p with count := p.count + 1, app := true } 0x01 [] (by decide) ?_ (by decide) (.rest (.deassert ?_))
    · simp [SdhcCard.respond, hr1]
    · rw [if_neg (by decide)]
      refine serves_r1 q q.r1 [] (by decide) ?_ (r1_ne q) (.rest (.deassert hs))
      have hhcs : ((0x40000000 : UInt32) >>> 24).toUInt8 &&& 0x40 = 0x40 := by decide
      simp [SdhcCard.respond, hnot, q, hhcs]

/-- R1 and the operating conditions of a card that is ready. -/
theorem serves_readOcr (card : SdhcCard) {p : Phase} (hp : p.ready = true) : ∃ p',
    Serves card.respond p readOcr (decide (card.ocr0 &&& 0x40 ≠ 0)) p' ∧ p'.ready = true := by
  let q : Phase := { p with count := p.count + 1, app := false }
  have hq : q.r1 = 0x00 := if_pos hp
  refine ⟨q, ?_, hp⟩
  unfold readOcr
  refine serves_r1 q 0x00 [card.ocr0, card.ocr1, card.ocr2, card.ocr3] (by decide) ?_ (by decide) ?_
  · rw [← hq]
    simp [SdhcCard.respond, q]
  · rw [if_pos rfl]
    refine .read (reads_readBytes (l := []) [card.ocr0, card.ocr1, card.ocr2, card.ocr3]) ?_
    show Meets _ _ _ (if card.ocr0 &&& 0x40 = 0 then _ else _) _ _
    by_cases h0 : card.ocr0 &&& 0x40 = 0
    · rw [if_pos h0, decide_eq_false (not_not.mpr h0)]
      exact .rest (.deassert (.pure false))
    · rw [if_neg h0, decide_eq_true h0]
      exact .rest (.pure true)

/-- CMD0, with its CRC. -/
theorem respond_goIdle (card : SdhcCard) (p : Phase) : card.respond p [0x40, ((0 : UInt32) >>> 24).toUInt8,
      ((0 : UInt32) >>> 16).toUInt8, ((0 : UInt32) >>> 8).toUInt8, (0 : UInt32).toUInt8, 0x95] =
    (⟨p.count + 1, false, false, 0⟩, card.reply p.count 0x01 []) := by
  have hcrc : crc7Ok [0x40, ((0 : UInt32) >>> 24).toUInt8, ((0 : UInt32) >>> 16).toUInt8, ((0 : UInt32) >>> 8).toUInt8,
      (0 : UInt32).toUInt8, 0x95] = true := by decide +kernel
  simp only [SdhcCard.respond, hcrc]
  rfl

theorem serves_sdInit (card : SdhcCard) (p : Phase) : ∃ p',
    Serves card.respond p sdInit (decide (card.busy < 5000 ∧ card.ocr0 &&& 0x40 ≠ 0)) p' ∧
      p'.ready = decide (card.busy < 5000) := by
  -- behind CMD0, and behind CMD8
  let p0 : Phase := ⟨p.count + 1, false, false, 0⟩
  let p8 : Phase := ⟨p.count + 1 + 1, false, false, 0⟩
  obtain ⟨p', hloop, hready⟩ := serves_acmd41 card 5000 p8 rfl (Nat.zero_le _)
  rw [show p8.polls + 5000 = 5000 from rfl] at hloop hready
  obtain ⟨p'', hend, hready'⟩ : ∃ p'', Serves card.respond p' (if decide (card.busy < 5000) then readOcr else pure false)
      (decide (card.busy < 5000 ∧ card.ocr0 &&& 0x40 ≠ 0)) p'' ∧ p''.ready = decide (card.busy < 5000) := by
    by_cases hb : card.busy < 5000
    · obtain ⟨p'', hs, hr⟩ := serves_readOcr card (hready.trans (decide_eq_true hb))
      refine ⟨p'', ?_, hr.trans (decide_eq_true hb).symm⟩
      simp only [hb, decide_true, if_true, true_and]
      exact hs
    · refine ⟨p', ?_, hready⟩
      simp only [hb, decide_false, false_and]
      exact .pure false
  refine ⟨p'', ?_, hready'⟩
  unfold sdInit
  refine (serves_sendBytes_idle 10).bind ?_
  refine serves_r1 p0 0x01 [] (by decide) (respond_goIdle card p) (by decide) (.rest ?_)
  rw [if_neg (by decide)]
  refine serves_r1 p8 0x01 [0x00, 0x00, 0x01, 0xAA] (by decide) ?_ (by decide) ?_
  · have hcrc : crc7Ok [0x48, ((0x1AA : UInt32) >>> 24).toUInt8, ((0x1AA : UInt32) >>> 16).toUInt8,
        ((0x1AA : UInt32) >>> 8).toUInt8, (0x1AA : UInt32).toUInt8, 0x87] = true := by decide +kernel
    simp only [SdhcCard.respond, hcrc]
    rfl
  rw [if_pos rfl]
  refine .read (reads_readBytes (l := []) [0x00, 0x00, 0x01, 0xAA]) (.rest (.deassert ?_))
  rw [if_pos (by decide)]
  exact hloop.bind hend

/-! ## Reads -/

theorem reads_readDataBlock (card : Card) {i : Nat} (hin : card.InTime i) (a : UInt32) :
    Reads 0xFF (readDataBlock 0xFFFF) (card.blockOf i a) (true, card.block a) [] := by
  have hn : card.nac i + 1 < 0xFFFF := hin
  have hb := card.length_block a
  refine (reads_readToken (by decide) (show card.nac i < 0xFFFF by omega)).bind ?_
  dsimp only
  rw [if_neg (by omega), if_neg (by decide), ← hb]
  refine (reads_readBytes (card.block a)).bind ?_
  exact Reads.bind (reads_readBytes (l := []) [(card.crc i).1, (card.crc i).2]) .done

theorem serves_sdReadBlock {card : SdhcCard} (hin : ∀ i, card.InTime i) {p : Phase} (hp : p.ready = true) (a : UInt32) :
    ∃ p',
    Serves card.respond p (sdReadBlock a) (true, card.block a) p' ∧ p'.ready = true := by
  let q : Phase := { p with count := p.count + 1, app := false }
  refine ⟨q, ?_, hp⟩
  refine serves_r1 q 0x00 (card.blockOf p.count a) (by decide) ?_ (by decide) ?_
  · simp [SdhcCard.respond, hp, address_args, q]
  · rw [if_neg (by decide)]
    exact .read (reads_readDataBlock card.toCard (hin p.count) a) (.rest (.deassert (.pure _)))

end

/-- A read of a block, or of a part of one. -/
inductive ReadCall where
  | block (a : UInt32)
  | part (a : UInt32) (offset length : UInt16)

namespace ReadCall

def prog : ReadCall → SpiProg (Bool × List UInt8)
  | block a => sdReadBlock a
  | part a offset length => sdReadPartialBlock a offset length

/-- The part is inside the block. -/
def Fits : ReadCall → Prop
  | block _ => True
  | part _ offset length => offset.toNat + length.toNat ≤ sdBlockSize

/-- Success, and the bytes. -/
def expected (card : Card) : ReadCall → Bool × List UInt8
  | block a => (true, card.block a)
  | part a offset length => slice offset length (true, card.block a)

theorem serves {card : SdhcCard} (hin : ∀ i, card.InTime i) {p : Phase} (hp : p.ready = true) {c : ReadCall}
    (hc : c.Fits) : ∃ p',
    Serves card.respond p c.prog (c.expected card.toCard) p' ∧ p'.ready = true := by
  cases c with
  | block a => exact serves_sdReadBlock hin hp a
  | part a offset length =>
    obtain ⟨p', hs, hr⟩ := serves_sdReadBlock hin hp a
    refine ⟨p', ?_, hr⟩
    show Serves _ _ (sdReadPartialBlock a offset length) _ _
    rw [sdReadPartialBlock_eq hc]
    exact hs.bind (.pure _)

end ReadCall

def readAll : List ReadCall → SpiProg (List (Bool × List UInt8))
  | [] => pure []
  | c :: calls => do
    let r ← c.prog
    let rs ← readAll calls
    pure (r :: rs)

theorem serves_readAll {card : SdhcCard} (hin : ∀ i, card.InTime i) (calls : List ReadCall) :
    ∀ {p : Phase}, p.ready = true → (∀ c ∈ calls, c.Fits) →
    ∃ p', Serves card.respond p (readAll calls) (calls.map (·.expected card.toCard)) p' ∧ p'.ready = true := by
  induction calls with
  | nil => exact fun {p} hp _ => ⟨p, .pure [], hp⟩
  | cons c calls ih =>
    intro p hp hc
    obtain ⟨p', h, hp'⟩ := ReadCall.serves hin hp (hc c List.mem_cons_self)
    obtain ⟨p'', h', hp''⟩ := ih hp' fun c' hc' => hc c' (List.mem_cons_of_mem _ hc')
    exact ⟨p'', h.bind (h'.bind (.pure _)), hp''⟩

/-- Initialisation, and the reads if it succeeds. -/
def startAndRead (calls : List ReadCall) : SpiProg (Bool × List (Bool × List UInt8)) := do
  let ok ← sdInit
  if ok then
    let rs ← readAll calls
    pure (true, rs)
  else pure (false, [])

/-! ## The prompt port -/

section
variable {card : SdhcCard} {m n : Nat}

theorem silent_idle (hm : m ≤ fifoDepth) (hn : n ≤ fifoDepth) (p : Phase) :
    Silent card.respond p (idle m) (idle n) ⟨p, [], []⟩ := by
  have h : ∀ m, after (listen card.respond) ⟨p, [], []⟩ (idle m) = ⟨p, [], []⟩ ∧
      replies (listen card.respond) ⟨p, [], []⟩ (idle m) = idle m := by
    intro m
    induction m with
    | zero => exact ⟨rfl, rfl⟩
    | succ m ih => exact ⟨ih.1, congrArg (List.cons 0xFF) ih.2⟩
  refine ⟨(h m).1, ?_, ?_, ?_⟩
  · rw [(h m).2, idle_append]
    simp [idle]
  · simpa [idle] using hm
  · simpa [idle] using hn

theorem Serves.outcome {α : Type} {p p' : Phase} {prog : SpiProg α} {a : α} (h : Serves card.respond p prog a p')
    (hm : m ≤ fifoDepth) (hn : n ≤ fifoDepth) : ∃ tx rx s, ∀ c,
      PromptSteps fifoDepth (listen card.respond) ⟨prog, idle m, idle n, ⟨p, [], []⟩⟩ c →
      PromptSteps fifoDepth (listen card.respond) c ⟨.done a, tx, rx, s⟩ := by
  obtain ⟨tx, rx, s, hp, -⟩ := h _ _ _ (silent_idle hm hn p)
  exact ⟨tx, rx, s, fun c hc => hp.reached hc⟩

/-- On a port that is slower than the processor SDInit returns, and returns true exactly if the card
    is ready after fewer than 5000 ACMD41 and has block addresses; whatever the card was at, whatever
    its delays and however much of 0xFF is under way. -/
theorem sdInit_decides (card : SdhcCard) (hm : m ≤ fifoDepth) (hn : n ≤ fifoDepth) (p : Phase) : ∃ tx rx s, ∀ c,
    PromptSteps fifoDepth (listen card.respond) ⟨sdInit, idle m, idle n, ⟨p, [], []⟩⟩ c →
    PromptSteps fifoDepth (listen card.respond) c
      ⟨.done (decide (card.busy < 5000 ∧ card.ocr0 &&& 0x40 ≠ 0)), tx, rx, s⟩ := by
  obtain ⟨p', h, -⟩ := serves_sdInit card p
  exact h.outcome hm hn

/-- With a card that SDInit accepts and whose tokens do not come with the last poll, every read behind it
    succeeds and brings the bytes of the block, however many reads there are: the eight bytes that each of
    them leaves under way do no harm here. -/
theorem session_reads (card : SdhcCard) (hbusy : card.busy < 5000) (hccs : card.ocr0 &&& 0x40 ≠ 0)
    (hin : ∀ i, card.InTime i) {calls : List ReadCall}
    (hfit : ∀ c ∈ calls, c.Fits) (hm : m ≤ fifoDepth) (hn : n ≤ fifoDepth) (p : Phase) : ∃ tx rx s, ∀ c,
    PromptSteps fifoDepth (listen card.respond) ⟨startAndRead calls, idle m, idle n, ⟨p, [], []⟩⟩ c →
    PromptSteps fifoDepth (listen card.respond) c ⟨.done (true, calls.map (·.expected card.toCard)), tx, rx, s⟩ := by
  obtain ⟨p', h, hready⟩ := serves_sdInit card p
  obtain ⟨p'', h', -⟩ := serves_readAll hin calls (hready.trans (decide_eq_true hbusy)) hfit
  rw [decide_eq_true ⟨hbusy, hccs⟩] at h
  exact (h.bind (h'.bind (.pure _)) : Serves card.respond p (startAndRead calls) _ p'').outcome hm hn

end

/-- Zeroes in every block, and three ACMD41 until it is ready. -/
def zeroSdhc : SdhcCard where
  toCard := zeroCard
  busy := 3
  ocr0 := 0xC0
  ocr1 := 0xFF
  ocr2 := 0x80
  ocr3 := 0x00

/-- From a port full of 0xFF. -/
theorem sdInit_decides_full : ∃ tx rx s, ∀ c,
    PromptSteps fifoDepth (listen zeroSdhc.respond) ⟨sdInit, idle 8, idle 8, ⟨⟨0, false, false, 0⟩, [], []⟩⟩ c →
    PromptSteps fifoDepth (listen zeroSdhc.respond) c
      ⟨.done (decide (zeroSdhc.busy < 5000 ∧ zeroSdhc.ocr0 &&& 0x40 ≠ 0)), tx, rx, s⟩ :=
  sdInit_decides zeroSdhc (Nat.le_refl 8) (Nat.le_refl 8) _

/-- From power-up, the sector of the partition table and the last word of it. -/
theorem session_reads_mbr : ∃ tx rx s, ∀ c,
    PromptSteps fifoDepth (listen zeroSdhc.respond)
      ⟨startAndRead [.block 0, .part 0 508 4], [], [], ⟨⟨0, false, false, 0⟩, [], []⟩⟩ c →
    PromptSteps fifoDepth (listen zeroSdhc.respond) c
      ⟨.done (true, [ReadCall.block 0, .part 0 508 4].map (·.expected zeroSdhc.toCard)), tx, rx, s⟩ :=
  session_reads (m := 0) (n := 0) zeroSdhc (by decide) (by decide) zeroCard_inTime
    (by
      intro c hc
      simp only [List.mem_cons, List.not_mem_nil, or_false] at hc
      rcases hc with rfl | rfl
      · trivial
      · exact Nat.le_refl 512) (Nat.zero_le _) (Nat.zero_le _) _

end OpenGpos.Sd
