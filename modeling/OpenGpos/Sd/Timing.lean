/-
  OpenGpos.Sd.Timing — which reads survive every timing. A command is seven pushes without a
  pop. With at most one byte under way before it no more than eight are under way at any
  time, nothing is lost, and the read is the one of the untimed port. With two or more the
  receive queue can be full when the card sends its R1: that byte is lost, and the driver
  takes the start token, or its timeout, for the response. Every read leaves eight. And a
  token that comes with the last poll counts as a timeout, whatever else is under way.
-/
import OpenGpos.Sd.Clocking
import OpenGpos.Sd.Quiet

namespace OpenGpos.Sd

open OpenGpos.Lib.Fifo

/-- `sdReadBlock` up to the dummy byte at its end. -/
def readReply (blockAddress : UInt32) : SpiProg (Bool × List UInt8) := do
  sdSendCommand 0x51 blockAddress 0x01
  let cmd17R1 ← readR1Response 0xFF
  if cmd17R1 ≠ 0x00 then pure (false, []) else readDataBlock 0xFFFF

theorem sdReadBlock_eq (blockAddress : UInt32) : sdReadBlock blockAddress = (readReply blockAddress >>= fun r => do
    deassertCS
    pure r) := by
  unfold sdReadBlock readReply
  rw [Prog.bind_assoc]
  congr 1
  funext _
  rw [Prog.bind_assoc]
  congr 1
  funext r1
  split <;> rfl

section
variable (card : Card)

/-! ## At most one byte under way -/

/-- What `sdReadBlock` returns if nothing is lost. -/
def readResult (i : Nat) (a : UInt32) : Bool × List UInt8 :=
  if card.nac i + 1 < 0xFFFF then (true, card.block a) else (false, [])

theorem yields_readDataBlock (i : Nat) (a : UInt32) :
    ∃ l, Yields card (readDataBlock 0xFFFF) (card.blockOf i a) (readResult card i a) l := by
  have hn := card.nac_limit i
  have htoken : Yields card (readToken 0xFFFF) (card.blockOf i a) (0xFE, 0xFFFF - (card.nac i + 1)) (card.bodyOf i a) :=
    yields_readToken (by decide) hn
  unfold readResult
  by_cases hi : card.nac i + 1 < 0xFFFF
  · rw [if_pos hi]
    refine ⟨[], htoken.bind ?_⟩
    dsimp only
    rw [if_neg (by omega), if_neg (by decide), ← card.length_block a]
    refine (yields_readBytes (card.block a)).bind ?_
    exact Yields.bind (yields_readBytes (l := []) [(card.crc i).1, (card.crc i).2]) (.pure _ _)
  · rw [if_neg hi]
    refine ⟨card.bodyOf i a, htoken.bind ?_⟩
    dsimp only
    rw [if_pos (by omega)]
    exact .pure _ _

theorem flow_readReply {n : Nat} (hn : n ≤ 1) (i : Nat) (a : UInt32) : ∃ q s,
    Flow fifoDepth card.answer (readReply a) (idle n) (waiting i) (readResult card i a) q s := by
  obtain ⟨q, s, hcmd, hq, hf⟩ := flow_sdSendCommand card hn i a
  have hl : idle (n + 6) ++ card.reply i a = idle (n + 6 + (card.ncr i - 1)) ++ 0x00 :: card.blockOf i a := by
    unfold Card.reply idle
    rw [← List.append_assoc, List.replicate_append_replicate]
  have hr := card.ncr_range i
  rw [hl] at hf
  obtain ⟨l, hblock⟩ := yields_readDataBlock card i a
  have hy : Yields card (readR1Response 0xFF >>= fun r1 => if r1 ≠ 0x00 then pure (false, []) else readDataBlock 0xFFFF)
      (idle (n + 6 + (card.ncr i - 1)) ++ 0x00 :: card.blockOf i a) (readResult card i a) l := by
    refine (yields_readR1Response (by decide) (by omega)).bind ?_
    rw [if_neg (by decide)]
    exact hblock
  obtain ⟨q', s', hflow, -, -⟩ := hy q s (by omega) (by unfold fifoDepth; omega) hf
  exact ⟨q', s', hcmd.bind hflow⟩

theorem replies_idle (i n : Nat) : replies card.answer (waiting i) (idle n) = idle n := by
  induction n with
  | zero => rfl
  | succ n ih => exact congrArg (List.cons 0xFF) ih

theorem after_idle (i n : Nat) : after card.answer (waiting i) (idle n) = waiting i := by
  induction n with
  | zero => rfl
  | succ n ih => exact ih

theorem reads_always {m n : Nat} (h : m + n ≤ 1) (i : Nat) (a : UInt32) :
    Must fifoDepth card.answer (fun c => c.prog = .done (readResult card i a))
      ⟨sdReadBlock a, idle m, idle n, waiting i⟩ := by
  obtain ⟨q, s, hflow⟩ := flow_readReply card (show n + m ≤ 1 by omega) i a
  have hflow' : Flow fifoDepth card.answer (readReply a) (idle n ++ replies card.answer (waiting i) (idle m))
      (after card.answer (waiting i) (idle m)) (readResult card i a) q s := by
    rw [replies_idle card, after_idle card, idle, idle, List.replicate_append_replicate]
    exact hflow
  rw [sdReadBlock_eq]
  refine hflow'.must (by decide) ?_ (.push .done)
  simp only [idle, List.length_replicate, fifoDepth]
  omega

/-! ## Two bytes under way -/

theorem enqueue_full {n : Nat} (h : fifoDepth ≤ n) (r : UInt8) : enqueue fifoDepth (idle n) r = idle n :=
  if_neg (by rw [idle, List.length_replicate]; omega)

/-- Everything under way is shifted before the call. -/
theorem steps_drain {α : Type} (p : SpiProg α) (i : Nat) : ∀ {m n : Nat}, n ≤ fifoDepth →
    Steps fifoDepth card.answer ⟨p, idle m, idle n, waiting i⟩ ⟨p, [], idle (min fifoDepth (n + m)), waiting i⟩ := by
  intro m
  induction m with
  | zero =>
    intro n hn
    rw [Nat.add_zero, Nat.min_eq_right hn]
    exact .refl
  | succ m ih =>
    intro n hn
    have h := @ih (min fifoDepth (n + 1)) (Nat.min_le_left ..)
    rw [show min fifoDepth (min fifoDepth (n + 1) + m) = min fifoDepth (n + (m + 1)) by unfold fifoDepth; omega,
      ← enqueue_idle hn] at h
    exact .head .shift h

/-- A byte of a command, shifted at once. -/
theorem steps_push {α : Type} {b : UInt8} {k : SpiProg α} {n : Nat} {s s' : CardState} (hn : n ≤ fifoDepth)
    (ha : card.answer s b = (s', 0xFF)) :
    Steps fifoDepth card.answer ⟨.push b k, [], idle n, s⟩ ⟨k, [], idle (min fifoDepth (n + 1)), s'⟩ := by
  have h : Steps fifoDepth card.answer ⟨.push b k, [], idle n, s⟩
      ⟨k, [], enqueue fifoDepth (idle n) (card.answer s b).2, (card.answer s b).1⟩ := Steps.push_shift (by decide)
  rw [ha, enqueue_idle hn] at h
  exact h

/-- The command, with its dummy byte still to be shifted: by now the receive queue is full. -/
theorem steps_sdSendCommand {n : Nat} (h2 : 2 ≤ n) (hn : n ≤ fifoDepth) (i : Nat) (a : UInt32) :
    Steps fifoDepth card.answer ⟨sdSendCommand 0x51 a 0x01, [], idle n, waiting i⟩
      ⟨.done (), [0xFF], idle fifoDepth, ⟨i + 1, [], card.reply i a⟩⟩ := by
  refine .trans (steps_push card hn (answer_first i)) ?_
  refine .trans (steps_push card (Nat.min_le_left ..) (answer_next i _ _ _ (by simp))) ?_
  refine .trans (steps_push card (Nat.min_le_left ..) (answer_next i _ _ _ (by simp))) ?_
  refine .trans (steps_push card (Nat.min_le_left ..) (answer_next i _ _ _ (by simp))) ?_
  refine .trans (steps_push card (Nat.min_le_left ..) (answer_next i _ _ _ (by simp))) ?_
  refine .trans (steps_push card (Nat.min_le_left ..) (answer_last i _ _ _ _ _)) ?_
  rw [address_args, show min fifoDepth _ = fifoDepth by unfold fifoDepth at hn ⊢; omega]
  exact .single (.push (by decide))

/-- A byte stays behind in the transmit queue until it is the one that brings R1. -/
theorem steps_lose (i : Nat) (rest : List UInt8) : ∀ {m timeout : Nat}, m < timeout →
    Steps fifoDepth card.answer ⟨readR1Response timeout, [0xFF], idle fifoDepth, ⟨i, [], idle m ++ 0x00 :: rest⟩⟩
      ⟨readR1Response (timeout - m), [], idle fifoDepth, ⟨i, [], rest⟩⟩ := by
  intro m
  induction m with
  | zero =>
    intro timeout ht
    have h : enqueue fifoDepth (idle fifoDepth) 0x00 = idle fifoDepth := enqueue_full (Nat.le_refl _) _
    exact .single (h ▸ Step.shift)
  | succ m ih =>
    intro timeout ht
    obtain ⟨timeout, rfl⟩ := Nat.exists_eq_add_one_of_ne_zero (show timeout ≠ 0 by omega)
    have h := @ih timeout (by omega)
    have he : enqueue fifoDepth (idle 7) 0xFF = idle fifoDepth := enqueue_idle (by decide)
    rw [← he, show timeout - m = timeout + 1 - (m + 1) by omega] at h
    refine .head .pop (.head (.push (by decide)) (.head .shift ?_))
    show Steps _ _ ⟨if (0xFF : UInt8) = 0xFF ∧ 0 < timeout then _ else _, _, _, _⟩ _
    rw [if_pos ⟨rfl, by omega⟩]
    exact h

/-- Without R1 the driver finds the token, or nothing. -/
theorem flow_no_response (i j : Nat) (a : UInt32) (timeout : Nat) : ∃ r q s, r ≠ 0x00 ∧
    Flow fifoDepth card.answer (readR1Response timeout) (idle fifoDepth) ⟨j, [], card.blockOf i a⟩ r q s := by
  have hf := feeds_self (idle fifoDepth) j (card.blockOf i a)
  have hl : idle fifoDepth ++ card.blockOf i a = idle (fifoDepth + card.nac i) ++ 0xFE :: card.bodyOf i a := by
    unfold Card.blockOf idle
    rw [← List.append_assoc, List.replicate_append_replicate]
  rw [hl] at hf
  rcases Nat.lt_or_ge (fifoDepth + card.nac i) timeout with h | h
  · obtain ⟨q, s, hflow, -, -⟩ := yields_readR1Response (by decide) h _ _ (by decide) (by decide) hf
    exact ⟨0xFE, q, s, by decide, hflow⟩
  · obtain ⟨l', hy⟩ := yields_readR1Response_timeout card (0xFE :: card.bodyOf i a) h
    obtain ⟨q, s, hflow, -, -⟩ := hy _ _ (by decide) (by decide) hf
    exact ⟨0xFF, q, s, by decide, hflow⟩

theorem steps_sdReadBlock_fails {m n : Nat} (hn : n ≤ fifoDepth) (h : 2 ≤ m + n) (i : Nat) (a : UInt32) :
    ∃ c, Steps fifoDepth card.answer ⟨sdReadBlock a, idle m, idle n, waiting i⟩ c ∧ c.prog = .done (false, []) := by
  have hr := card.ncr_range i
  have hdrain := steps_drain card (sdReadBlock a) i (m := m) hn
  have hcmd := steps_sdSendCommand card (show 2 ≤ min fifoDepth (n + m) by unfold fifoDepth; omega)
    (Nat.min_le_left ..) i a
  have hlose := steps_lose card (i + 1) (card.blockOf i a) (show card.ncr i - 1 < 0xFF by omega)
  obtain ⟨r, q, s, hr0, hflow⟩ := flow_no_response card i (i + 1) a (0xFF - (card.ncr i - 1))
  have hresponse := hlose.trans (hflow.steps (by decide))
  refine ⟨⟨.done (false, []), [0xFF], q, s⟩, .trans hdrain (.trans (hcmd.bind _) (.trans (hresponse.bind _) ?_)), rfl⟩
  show Steps _ _ ⟨if r ≠ 0x00 then _ else _, _, _, _⟩ _
  rw [if_pos hr0]
  exact .single (.push (show 0 < fifoDepth by decide))

end

/-! ## Reads one after the other -/

/-- The port as successful reads leave it, from one where nothing but 0xFF is under way and
    the card waits. -/
inductive Left (card : Card) : List UInt8 → List UInt8 → CardState → Prop
  | start {m n i : Nat} : m ≤ fifoDepth → n ≤ fifoDepth → Left card (idle m) (idle n) (waiting i)
  | readBlock {tx rx tx' rx' : List UInt8} {s s' : CardState} {a : UInt32} {data : List UInt8} : Left card tx rx s →
      Steps fifoDepth card.answer ⟨sdReadBlock a, tx, rx, s⟩ ⟨.done (true, data), tx', rx', s'⟩ → Left card tx' rx' s'
  | readPartialBlock {tx rx tx' rx' : List UInt8} {s s' : CardState} {a : UInt32} {offset length : UInt16}
      {data : List UInt8} : Left card tx rx s →
      Steps fifoDepth card.answer ⟨sdReadPartialBlock a offset length, tx, rx, s⟩ ⟨.done (true, data), tx', rx', s'⟩ →
      Left card tx' rx' s'

section
variable {card : Card} {tx rx : List UInt8} {s : CardState}

theorem rx_le {α : Type} {c c' : Config UInt8 CardState α} (h : Steps fifoDepth card.answer c c')
    (hc : c.rx.length ≤ fifoDepth) : c'.rx.length ≤ fifoDepth :=
  h.invariant (fun c => c.rx.length ≤ fifoDepth) (fun _ _ => Step.rx_le) hc

theorem Left.quiet (h : Left card tx rx s) : Quiet tx rx s ∧ rx.length ≤ fifoDepth := by
  induction h with
  | @start m n i _ hn => exact ⟨⟨m, n, i, rfl, rfl, rfl⟩, by rw [idle, List.length_replicate]; exact hn⟩
  | readBlock _ hs ih => exact ⟨(triple_sdReadBlock _).sound ih.1 hs rfl, rx_le hs ih.2⟩
  | readPartialBlock _ hs ih => exact ⟨(triple_sdReadPartialBlock _ _ _).sound ih.1 hs rfl, rx_le hs ih.2⟩

theorem readResult_inTime {i : Nat} (h : card.InTime i) (a : UInt32) :
    readResult card i a = (true, card.block a) := if_pos h

/-- A read of a block survives every timing exactly if at most one byte is under way before it and
    the card's token does not come with the last poll. -/
theorem read_survives_iff (h : Left card tx rx s) (a : UInt32) :
    Must fifoDepth card.answer (fun c => c.prog = .done (true, card.block a)) ⟨sdReadBlock a, tx, rx, s⟩ ↔
      tx.length + rx.length ≤ 1 ∧ card.InTime s.count := by
  obtain ⟨⟨m, n, i, rfl, rfl, rfl⟩, hn⟩ := h.quiet
  rw [idle, List.length_replicate] at hn
  simp only [idle, List.length_replicate]
  constructor
  · intro hmust
    have h1 : m + n ≤ 1 := by
      by_contra h2
      obtain ⟨c, hs, hc⟩ := steps_sdReadBlock_fails card hn (show 2 ≤ m + n by omega) i a
      cases hmust.result hs hc
    refine ⟨h1, ?_⟩
    by_contra hlate
    have hfails : readResult card i a = (false, []) := if_neg hlate
    obtain ⟨c, hs, hc⟩ := (reads_always card h1 i a).run
    rw [hfails] at hc
    cases hmust.result hs hc
  · rintro ⟨h1, hi⟩
    exact readResult_inTime hi a ▸ reads_always card h1 i a

end

/-! ## A read after a read -/

theorem owed_deassertCS {n : Nat} (hn : 7 ≤ n) (r : Bool × List UInt8) :
    Owed fifoDepth (fun _ m => 8 ≤ m) (deassertCS >>= fun _ => pure r) n :=
  Nat.le_min.mpr ⟨Nat.le_refl 8, Nat.succ_le_succ hn⟩

theorem owed_read (a : UInt32) {block : SpiProg (Bool × List UInt8)} (hb : Keeps 1 block) :
    Owed fifoDepth (fun _ m => 8 ≤ m) (do
      sdSendCommand 0x51 a 0x01
      let cmd17R1 ← readR1Response 0xFF
      if cmd17R1 ≠ 0x00 then
        deassertCS
        pure (false, [])
      else
        let r ← block
        deassertCS
        pure r) 0 := by
  have hcmd : Owed fifoDepth (fun _ m => 7 ≤ m ∧ m ≤ fifoDepth) (sdSendCommand 0x51 a 0x01) 0 :=
    show 7 ≤ 7 ∧ 7 ≤ 8 by decide
  refine hcmd.bind fun _ n hn => ?_
  refine ((keeps_readR1Response 0xFF).owed n (by omega) hn.2).bind fun r1 m hm => ?_
  split
  · exact owed_deassertCS (by omega) (false, [])
  · exact (hb.owed m (by omega) hm.2).bind fun r m' hm' => owed_deassertCS (by omega) r

/-- Whatever was lost, eight bytes are under way behind a read. -/
theorem outstanding_sdReadBlock {card : Card} {a : UInt32} {tx rx : List UInt8} {s : CardState}
    {c : Config UInt8 CardState (Bool × List UInt8)} {r : Bool × List UInt8}
    (hs : Steps fifoDepth card.answer ⟨sdReadBlock a, tx, rx, s⟩ c) (hc : c.prog = .done r) : 8 ≤ c.outstanding := by
  obtain ⟨m, hm, h8⟩ := (owed_read a (keeps_readDataBlock 0xFFFF)).done (Nat.zero_le _) (Nat.zero_le _) hs hc
  omega

/-- Zeroes in every block, and no delays. -/
def zeroCard : Card where
  block _ := List.replicate sdBlockSize 0
  length_block _ := List.length_replicate
  ncr _ := 1
  ncr_range _ := ⟨Nat.le_refl 1, by decide⟩
  nac _ := 0
  nac_limit _ := by decide
  crc _ := (0, 0)

theorem zeroCard_inTime (i : Nat) : zeroCard.InTime i := show 0 + 1 < 0xFFFF by decide

/-- An empty port meets the condition. -/
theorem first_read_survives : Must fifoDepth zeroCard.answer (fun c => c.prog = .done (true, zeroCard.block 0))
    ⟨sdReadBlock 0, [], [], waiting 0⟩ :=
  (read_survives_iff (.start (m := 0) (n := 0) (Nat.zero_le _) (Nat.zero_le _)) 0).mpr
    ⟨Nat.zero_le 1, zeroCard_inTime 0⟩

/-- The second read of a port can return false. -/
theorem second_read_fails : ∃ tx rx s,
    Steps fifoDepth zeroCard.answer ⟨sdReadBlock 0, [], [], waiting 0⟩ ⟨.done (true, zeroCard.block 0), tx, rx, s⟩ ∧
    ∃ c, Steps fifoDepth zeroCard.answer ⟨sdReadBlock 1, tx, rx, s⟩ c ∧ c.prog = .done (false, []) := by
  obtain ⟨q, s, hflow⟩ := flow_readReply zeroCard (Nat.zero_le 1) 0 0
  have hreply := (hflow.steps (by decide)).bind fun r => deassertCS >>= fun _ => pure r
  have hread : Steps fifoDepth zeroCard.answer ⟨sdReadBlock 0, [], [], waiting 0⟩
      ⟨.done (true, zeroCard.block 0), [0xFF], q, s⟩ := by
    rw [sdReadBlock_eq]
    rw [readResult_inTime (zeroCard_inTime 0)] at hreply
    exact hreply.trans (.single (.push (show 0 < fifoDepth by decide)))
  have h8 := outstanding_sdReadBlock hread rfl
  have hleft : Left zeroCard [0xFF] q s := .readBlock (.start (m := 0) (n := 0) (Nat.zero_le _) (Nat.zero_le _)) hread
  obtain ⟨⟨m, n, i, hm, rfl, rfl⟩, hn⟩ := hleft.quiet
  rw [hm] at hread h8
  simp only [Config.outstanding, idle, List.length_replicate] at h8 hn
  exact ⟨_, _, _, hread, steps_sdReadBlock_fails zeroCard hn (by omega) i 1⟩

end OpenGpos.Sd
