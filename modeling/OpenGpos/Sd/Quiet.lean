/-
  OpenGpos.Sd.Quiet — what a successful read leaves behind: bytes of 0xFF, and a card that
  waits for a command. Received bytes may be lost in any number, so what the driver reads is
  some of what the card sent, in order. `Behind l` says that: what was sent and not yet
  passed over, and what the card is still to send, is `l`. A read returns true behind two
  bytes that are not 0xFF and at least 514 more; those reach to the end of the block.
-/
import OpenGpos.Sd.Card

namespace OpenGpos.Sd

open OpenGpos.Lib.Fifo

/-- Nothing but 0xFF is under way, and the card waits. -/
def Quiet (tx rx : List UInt8) (s : CardState) : Prop := ∃ m n i, tx = idle m ∧ rx = idle n ∧ s = waiting i

/-- The card sends the rest of `l` and then 0xFF; the queue has some of what is before that rest. -/
def Behind (l tx rx : List UInt8) (s : CardState) : Prop :=
  s.command = [] ∧ (∃ m, tx = idle m) ∧ ∃ sent n, sent ++ s.pending = l ++ idle n ∧ (n ≠ 0 → s.pending = []) ∧
    rx.Sublist sent

theorem idle_snoc (n : Nat) : idle n ++ [0xFF] = idle (n + 1) := List.replicate_succ'.symm

theorem idle_cons {b : UInt8} {tx : List UInt8} {m : Nat} (h : b :: tx = idle m) : b = 0xFF ∧ tx = idle (m - 1) := by
  cases m with
  | zero => cases h
  | succ m => exact ⟨(List.cons.inj h).1, (List.cons.inj h).2⟩

theorem sublist_enqueue {rx sent : List UInt8} (h : rx.Sublist sent) (r : UInt8) :
    (enqueue fifoDepth rx r).Sublist (sent ++ [r]) := by
  unfold enqueue
  split
  · exact h.append (.refl _)
  · exact h.trans (List.sublist_append_left ..)

section
variable {card : Card} {l tx rx : List UInt8} {s : CardState}

theorem behind_nil_iff : Behind [] tx rx s ↔ Quiet tx rx s := by
  constructor
  · rintro ⟨hc, ⟨m, rfl⟩, sent, n, hs, hn, hsub⟩
    have hp : s.pending = [] := by
      by_cases h0 : n = 0
      · rw [h0] at hs
        exact (List.append_eq_nil_iff.mp hs).2
      · exact hn h0
    rw [hp, List.append_nil, List.nil_append] at hs
    rw [hs] at hsub
    obtain ⟨k, -, hk⟩ := List.sublist_replicate_iff.mp hsub
    obtain ⟨i, cs, pending⟩ := s
    obtain rfl : cs = [] := hc
    obtain rfl : pending = [] := hp
    exact ⟨m, k, i, rfl, hk, rfl⟩
  · rintro ⟨m, n, i, rfl, rfl, rfl⟩
    exact ⟨rfl, ⟨m, rfl⟩, idle n, n, List.append_nil _, fun _ => rfl, .refl _⟩

theorem stable_behind (l : List UInt8) : Stable fifoDepth card.answer (Behind l) := by
  rintro b tx rx ⟨i, cs, pending⟩ ⟨hc, ⟨m, hm⟩, sent, n, hs, hn, hsub⟩
  obtain rfl : cs = [] := hc
  obtain ⟨rfl, htx⟩ := idle_cons hm
  cases pending with
  | nil =>
    refine ⟨rfl, ⟨_, htx⟩, sent ++ [0xFF], n + 1, ?_, fun _ => rfl, sublist_enqueue hsub _⟩
    have hs : sent ++ [] = l ++ idle n := hs
    rw [List.append_nil] at hs
    rw [hs]
    show l ++ idle n ++ [0xFF] ++ [] = _
    rw [List.append_nil, List.append_assoc, idle_snoc]
  | cons r rest =>
    have h0 : n = 0 := by
      by_contra h0
      cases hn h0
    refine ⟨rfl, ⟨_, htx⟩, sent ++ [r], n, ?_, fun h => absurd h0 h, sublist_enqueue hsub _⟩
    rw [← hs, List.append_assoc]
    rfl

theorem Behind.push (h : Behind l tx rx s) : Behind l (tx ++ [0xFF]) rx s := by
  obtain ⟨hc, ⟨m, rfl⟩, hr⟩ := h
  exact ⟨hc, ⟨m + 1, idle_snoc m⟩, hr⟩

/-- What was received next was sent as the first of `l`, or later. -/
theorem Behind.pop {r r' : UInt8} (h : Behind (r' :: l) tx (r :: rx) s) : Behind l tx rx s := by
  obtain ⟨hc, hm, sent, n, hs, hn, hsub⟩ := h
  cases sent with
  | nil => cases hsub
  | cons x sent => exact ⟨hc, hm, sent, n, (List.cons.inj hs).2, hn, hsub.tail⟩

theorem Behind.pop_nil {r : UInt8} (h : Behind [] tx (r :: rx) s) : Behind [] tx rx s := by
  obtain ⟨m, n, i, rfl, hr, rfl⟩ := behind_nil_iff.mp h
  exact behind_nil_iff.mpr ⟨m, n - 1, i, rfl, (idle_cons hr).2, rfl⟩

/-- A byte that is not 0xFF was not the first. -/
theorem Behind.skip {r : UInt8} (hr : r ≠ 0xFF) (h : Behind (0xFF :: l) tx (r :: rx) s) : Behind l tx (r :: rx) s := by
  obtain ⟨hc, hm, sent, n, hs, hn, hsub⟩ := h
  cases sent with
  | nil => cases hsub
  | cons x sent =>
    obtain ⟨rfl, hs'⟩ := List.cons.inj hs
    refine ⟨hc, hm, sent, n, hs', hn, ?_⟩
    cases hsub with
    | cons _ h => exact h
    | cons_cons _ _ => exact absurd rfl hr

theorem Behind.skips {r : UInt8} (hr : r ≠ 0xFF) : ∀ {i : Nat}, Behind (idle i ++ l) tx (r :: rx) s → Behind l tx (r :: rx) s := by
  intro i
  induction i with
  | zero => exact id
  | succ i ih => exact fun h => ih (Behind.skip hr h)

/-! ## The stages of a read -/

/-- At most `m` bytes that count are left. -/
def Within (m : Nat) (tx rx : List UInt8) (s : CardState) : Prop := ∃ l, l.length ≤ m ∧ Behind l tx rx s

/-- The next byte that is not 0xFF is the token, or behind it. -/
def BeforeToken (tx rx : List UInt8) (s : CardState) : Prop := ∃ i l, l.length ≤ 515 ∧ Behind (idle i ++ l) tx rx s

/-- The next byte that is not 0xFF is R1, or behind it. -/
def BeforeR1 (tx rx : List UInt8) (s : CardState) : Prop :=
  (∃ i k l, l.length ≤ 514 ∧ Behind (idle i ++ 0x00 :: (idle k ++ 0xFE :: l)) tx rx s) ∨ BeforeToken tx rx s

theorem Within.pop {m : Nat} {r : UInt8} (h : Within m tx (r :: rx) s) : Within (m - 1) tx rx s := by
  obtain ⟨l, hl, hb⟩ := h
  cases l with
  | nil => exact ⟨[], Nat.zero_le _, hb.pop_nil⟩
  | cons x l => exact ⟨l, by rw [List.length_cons] at hl; omega, hb.pop⟩

theorem Within.mono {m m' : Nat} (h : Within m tx rx s) (hm : m ≤ m') : Within m' tx rx s := by
  obtain ⟨l, hl, hb⟩ := h
  exact ⟨l, by omega, hb⟩

theorem Within.beforeToken (h : Within 514 tx rx s) : BeforeToken tx rx s := by
  obtain ⟨l, hl, hb⟩ := h
  exact ⟨0, l, by omega, hb⟩

theorem BeforeToken.pop_idle {r : UInt8} (h : BeforeToken tx (r :: rx) s) : BeforeToken tx rx s := by
  obtain ⟨i, l, hl, hb⟩ := h
  cases i with
  | zero => exact (Within.pop ⟨l, hl, hb⟩).beforeToken
  | succ i => exact ⟨i, l, hl, hb.pop⟩

theorem BeforeToken.pop {r : UInt8} (hr : r ≠ 0xFF) (h : BeforeToken tx (r :: rx) s) : Within 514 tx rx s := by
  obtain ⟨i, l, hl, hb⟩ := h
  exact Within.pop ⟨l, hl, hb.skips hr⟩

theorem BeforeR1.pop_idle {r : UInt8} (h : BeforeR1 tx (r :: rx) s) : BeforeR1 tx rx s := by
  rcases h with ⟨i, k, l, hl, hb⟩ | h
  · cases i with
    | zero => exact .inr ⟨k, 0xFE :: l, Nat.succ_le_succ hl, hb.pop⟩
    | succ i => exact .inl ⟨i, k, l, hl, hb.pop⟩
  · exact .inr h.pop_idle

theorem BeforeR1.pop {r : UInt8} (hr : r ≠ 0xFF) (h : BeforeR1 tx (r :: rx) s) : BeforeToken tx rx s := by
  rcases h with ⟨i, k, l, hl, hb⟩ | h
  · exact ⟨k, 0xFE :: l, Nat.succ_le_succ hl, (hb.skips hr).pop⟩
  · exact (h.pop hr).beforeToken

theorem stable_within (m : Nat) : Stable fifoDepth card.answer (Within m) :=
  fun b tx rx s ⟨l, hl, hb⟩ => ⟨l, hl, stable_behind l b tx rx s hb⟩

theorem stable_beforeToken : Stable fifoDepth card.answer BeforeToken :=
  fun b tx rx s ⟨i, l, hl, hb⟩ => ⟨i, l, hl, stable_behind _ b tx rx s hb⟩

theorem stable_beforeR1 : Stable fifoDepth card.answer BeforeR1 := by
  rintro b tx rx s (⟨i, k, l, hl, hb⟩ | h)
  · exact .inl ⟨i, k, l, hl, stable_behind _ b tx rx s hb⟩
  · exact .inr (stable_beforeToken b tx rx s h)

theorem Within.push {m : Nat} (h : Within m tx rx s) : Within m (tx ++ [0xFF]) rx s := by
  obtain ⟨l, hl, hb⟩ := h
  exact ⟨l, hl, hb.push⟩

theorem BeforeToken.push (h : BeforeToken tx rx s) : BeforeToken (tx ++ [0xFF]) rx s := by
  obtain ⟨i, l, hl, hb⟩ := h
  exact ⟨i, l, hl, hb.push⟩

theorem BeforeR1.push (h : BeforeR1 tx rx s) : BeforeR1 (tx ++ [0xFF]) rx s := by
  rcases h with ⟨i, k, l, hl, hb⟩ | h
  · exact .inl ⟨i, k, l, hl, hb.push⟩
  · exact .inr h.push

/-! ## Sending the command -/

/-- Of the bytes `sent` the card has some and the rest is in the transmit queue; nothing was
    answered yet. Dummy bytes come before them or, behind the sixth, after them. -/
def Sending (sent tx rx : List UInt8) (s : CardState) : Prop :=
  s.pending = [] ∧ s.command.length < 6 ∧ (∃ n, rx = idle n) ∧ ∃ m todo k, s.command ++ todo = sent ∧
    tx = idle m ++ todo ++ idle k ∧ (s.command ≠ [] → m = 0) ∧ (k ≠ 0 → sent.length = 6)

theorem enqueue_idle_eq (n : Nat) : ∃ n', enqueue fifoDepth (idle n) 0xFF = idle n' := by
  unfold enqueue
  split
  · exact ⟨n + 1, idle_snoc n⟩
  · exact ⟨n, rfl⟩

/-- A shift goes on with the command, or it was its last byte. -/
theorem Sending.shift {sent rest : List UInt8} {b : UInt8} (he : sent = 0x51 :: rest) (hl : sent.length ≤ 6)
    (h : Sending sent (b :: tx) rx s) :
    Sending sent tx (enqueue fifoDepth rx (card.answer s b).2) (card.answer s b).1 ∨
      sent.length = 6 ∧ ∃ i n, Behind (idle n ++ card.response i sent) tx (enqueue fifoDepth rx (card.answer s b).2)
        (card.answer s b).1 := by
  obtain ⟨i, cs, pending⟩ := s
  obtain ⟨hp, h6, ⟨n, rfl⟩, m, todo, k, hs, htx, hm, hk⟩ := h
  obtain rfl : pending = [] := hp
  obtain ⟨n', hn'⟩ := enqueue_idle_eq n
  change cs.length < 6 at h6
  change cs ++ todo = sent at hs
  cases m with
  | succ m =>
    have hcs : cs = [] := by
      by_contra hcs
      cases hm hcs
    subst hcs
    obtain ⟨rfl, rfl⟩ := List.cons.inj htx
    exact .inl ⟨rfl, Nat.zero_lt_succ 5, ⟨n', hn'⟩, m, todo, k, hs, rfl, fun h => absurd rfl h, hk⟩
  | zero =>
    cases todo with
    | nil =>
      -- a dummy byte behind a command that the card does not have yet
      have hk0 : k ≠ 0 := by
        rintro rfl
        cases htx
      rw [List.append_nil] at hs
      have := hk hk0
      rw [hs] at h6
      omega
    | cons b' todo =>
      obtain ⟨rfl, rfl⟩ := List.cons.inj htx
      cases cs with
      | nil =>
        obtain ⟨rfl, -⟩ := List.cons.inj (hs.trans he)
        exact .inl ⟨rfl, Nat.lt_of_sub_pos (Nat.zero_lt_succ 4), ⟨n', hn'⟩, 0, todo, k, hs, rfl, fun _ => rfl, hk⟩
      | cons c cs =>
        rw [List.length_cons] at h6
        have hlen := congrArg List.length hs
        simp only [List.cons_append, List.length_cons, List.length_append] at hlen
        by_cases h5 : cs.length < 4
        · rw [answer_next i c b cs h5]
          refine .inl ⟨rfl, by simp; omega, ⟨n', hn'⟩, 0, todo, k, ?_, rfl, fun _ => rfl, hk⟩
          rw [← hs]
          simp
        · obtain rfl : todo = [] := List.eq_nil_of_length_eq_zero (by omega)
          rw [answer_sixth i c b cs (by omega)]
          refine .inr ⟨by omega, i, n', rfl, ⟨k, rfl⟩, idle n', 0, ?_, fun h => absurd rfl h, ?_⟩
          · rw [← hs]
            show idle n' ++ _ = _ ++ []
            rw [List.append_nil]
            rfl
          · exact hn' ▸ .refl _

theorem Sending.push {sent : List UInt8} (b : UInt8) (hl : sent.length < 6) (h : Sending sent tx rx s) :
    Sending (sent ++ [b]) (tx ++ [b]) rx s := by
  obtain ⟨hp, h6, hn, m, todo, k, rfl, rfl, hm, hk⟩ := h
  obtain rfl : k = 0 := by
    by_contra h0
    have := hk h0
    omega
  refine ⟨hp, h6, hn, m, todo ++ [b], 0, ?_, ?_, hm, fun h => absurd rfl h⟩
  · rw [List.append_assoc]
  · show idle m ++ todo ++ [] ++ [b] = idle m ++ (todo ++ [b]) ++ []
    simp

theorem Sending.first (h : Quiet tx rx s) : Sending [0x51] (tx ++ [0x51]) rx s := by
  obtain ⟨m, n, i, rfl, rfl, rfl⟩ := h
  exact ⟨rfl, Nat.zero_lt_succ 5, ⟨n, rfl⟩, m, [0x51], 0, rfl, (List.append_nil _).symm, fun h => absurd rfl h, fun h => absurd rfl h⟩

theorem stable_sending {sent rest : List UInt8} (he : sent = 0x51 :: rest) (hl : sent.length < 6) :
    Stable fifoDepth card.answer (Sending sent) := by
  intro b tx rx s h
  rcases h.shift he (by omega) with h | ⟨h6, -⟩
  · exact h
  · omega

/-- The command is on its way, or it was received and its answer is. -/
def Awaiting (sent tx rx : List UInt8) (s : CardState) : Prop := Sending sent tx rx s ∨ BeforeR1 tx rx s

theorem stable_awaiting (a3 a2 a1 a0 crc : UInt8) : Stable fifoDepth card.answer (Awaiting [0x51, a3, a2, a1, a0, crc]) := by
  rintro b tx rx s (h | h)
  · have h6 : [0x51, a3, a2, a1, a0, crc].length ≤ 6 := Nat.le_refl 6
    rcases h.shift rfl h6 with h | ⟨-, i, n, h⟩
    · exact .inl h
    · refine .inr (.inl ⟨n + (card.ncr i - 1), card.nac i, card.bodyOf i (Card.address a3 a2 a1 a0), ?_, ?_⟩)
      · simp [Card.bodyOf, card.length_block, sdBlockSize]
      · have hi : idle (n + (card.ncr i - 1)) = idle n ++ idle (card.ncr i - 1) := (List.replicate_append_replicate).symm
        rw [hi, List.append_assoc]
        exact h
  · exact .inr (stable_beforeR1 b tx rx s h)

theorem Awaiting.push {sent : List UInt8} (h6 : sent.length = 6) (h : Awaiting sent tx rx s) : Awaiting sent (tx ++ [0xFF]) rx s := by
  rcases h with ⟨hp, hc, hn, m, todo, k, hs, rfl, hm, hk⟩ | h
  · refine .inl ⟨hp, hc, hn, m, todo, k + 1, hs, ?_, hm, fun _ => h6⟩
    rw [List.append_assoc _ (idle k), idle_snoc]
  · exact .inr h.push

theorem Awaiting.pop_idle {sent : List UInt8} {r : UInt8} (h : Awaiting sent tx (r :: rx) s) : Awaiting sent tx rx s := by
  rcases h with ⟨hp, hc, ⟨n, hn⟩, hr⟩ | h
  · exact .inl ⟨hp, hc, ⟨n - 1, (idle_cons hn).2⟩, hr⟩
  · exact .inr h.pop_idle

theorem Awaiting.pop {sent : List UInt8} {r : UInt8} (hr : r ≠ 0xFF) (h : Awaiting sent tx (r :: rx) s) : BeforeToken tx rx s := by
  rcases h with ⟨-, -, ⟨n, hn⟩, -⟩ | h
  · exact absurd (idle_cons hn).1 hr
  · exact h.pop hr

/-! ## The read -/

theorem stable_quiet : Stable fifoDepth card.answer Quiet := by
  intro b tx rx s h
  exact behind_nil_iff.mp (stable_behind [] b tx rx s (behind_nil_iff.mpr h))

theorem Quiet.push (h : Quiet tx rx s) : Quiet (tx ++ [0xFF]) rx s := behind_nil_iff.mp (behind_nil_iff.mpr h).push

theorem triple_sdSendCommand (a : UInt32) : Triple fifoDepth card.answer Quiet (sdSendCommand 0x51 a 0x01)
    fun _ => Awaiting [0x51, (a >>> 24).toUInt8, (a >>> 16).toUInt8, (a >>> 8).toUInt8, a.toUInt8, 0x01] := by
  refine .push (Sending _) stable_quiet (fun _ _ _ h => .first h) ?_
  refine .push (Sending _) (stable_sending rfl (by simp)) (fun _ _ _ h => h.push _ (by simp)) ?_
  refine .push (Sending _) (stable_sending rfl (by simp)) (fun _ _ _ h => h.push _ (by simp)) ?_
  refine .push (Sending _) (stable_sending rfl (by simp)) (fun _ _ _ h => h.push _ (by simp)) ?_
  refine .push (Sending _) (stable_sending rfl (by simp)) (fun _ _ _ h => h.push _ (by simp)) ?_
  refine .push (Awaiting _) (stable_sending rfl (by simp)) (fun _ _ _ h => .inl (h.push _ (by simp))) ?_
  refine .push (Awaiting _) (stable_awaiting _ _ _ _ _) (fun _ _ _ h => h.push rfl) ?_
  exact .done (stable_awaiting _ _ _ _ _) fun _ _ _ h => h

/-- Behind a poll's read and its dummy byte. -/
def Polled (P T : List UInt8 → List UInt8 → CardState → Prop) (r : UInt8) (tx rx : List UInt8) (s : CardState) : Prop :=
  (r = 0xFF → P tx rx s) ∧ (r ≠ 0xFF → T tx rx s)

theorem stable_polled {P T : List UInt8 → List UInt8 → CardState → Prop} (hP : Stable fifoDepth card.answer P)
    (hT : Stable fifoDepth card.answer T) (r : UInt8) : Stable fifoDepth card.answer (Polled P T r) :=
  fun b tx rx s h => ⟨fun he => hP b tx rx s (h.1 he), fun hn => hT b tx rx s (h.2 hn)⟩

/-- One turn of a poll that waits for a byte that is not 0xFF. -/
theorem triple_poll {α : Type} {P T : List UInt8 → List UInt8 → CardState → Prop} {k : UInt8 → SpiProg α}
    {Q : α → List UInt8 → List UInt8 → CardState → Prop} (hP : Stable fifoDepth card.answer P)
    (hT : Stable fifoDepth card.answer T) (hPp : ∀ tx rx s, P tx rx s → P (tx ++ [0xFF]) rx s)
    (hTp : ∀ tx rx s, T tx rx s → T (tx ++ [0xFF]) rx s) (hidle : ∀ tx r rx s, P tx (r :: rx) s → P tx rx s)
    (hpop : ∀ tx r rx s, r ≠ 0xFF → P tx (r :: rx) s → T tx rx s)
    (hk : ∀ r, Triple fifoDepth card.answer (Polled P T r) (k r) Q) :
    Triple fifoDepth card.answer P (.pop fun r => .push 0xFF (k r)) Q := by
  refine .pop (Polled P T) hP (fun tx r rx s h => ⟨fun _ => hidle tx r rx s h, fun hr => hpop tx r rx s hr h⟩) fun r => ?_
  refine .push (Polled P T r) (stable_polled hP hT r) (fun tx rx s h => ?_) (hk r)
  exact ⟨fun he => hPp tx rx s (h.1 he), fun hn => hTp tx rx s (h.2 hn)⟩

theorem triple_readR1Response (a3 a2 a1 a0 crc : UInt8) (timeout : Nat) :
    Triple fifoDepth card.answer (Awaiting [0x51, a3, a2, a1, a0, crc]) (readR1Response timeout)
      fun r tx rx s => r ≠ 0xFF → BeforeToken tx rx s := by
  have hP := @stable_awaiting card a3 a2 a1 a0 crc
  induction timeout with
  | zero => exact .done hP fun _ _ _ _ h => absurd rfl h
  | succ timeout ih =>
    refine triple_poll hP stable_beforeToken (fun _ _ _ h => h.push rfl) (fun _ _ _ h => h.push) (fun _ _ _ _ h => h.pop_idle)
      (fun _ _ _ _ hr h => h.pop hr) fun r => ?_
    split
    · next h => exact ih.pre fun _ _ _ hp => hp.1 h.1
    · exact .done (stable_polled hP stable_beforeToken r) fun _ _ _ hp => hp.2

theorem triple_readToken (timeout : Nat) : Triple fifoDepth card.answer BeforeToken (readToken timeout)
    fun r tx rx s => r.1 ≠ 0xFF → Within 514 tx rx s := by
  induction timeout with
  | zero => exact .done stable_beforeToken fun _ _ _ _ h => absurd rfl h
  | succ timeout ih =>
    refine triple_poll stable_beforeToken (stable_within 514) (fun _ _ _ h => h.push) (fun _ _ _ h => h.push)
      (fun _ _ _ _ h => h.pop_idle) (fun _ _ _ _ hr h => h.pop hr) fun r => ?_
    split
    · next h => exact ih.pre fun _ _ _ hp => hp.1 h.1
    · exact .done (stable_polled stable_beforeToken (stable_within 514) r) fun _ _ _ hp => hp.2

theorem triple_readBytes (n : Nat) : ∀ m, Triple fifoDepth card.answer (Within m) (readBytes n) fun _ => Within (m - n) := by
  induction n with
  | zero => exact fun m => .done (stable_within m) fun _ _ _ h => h
  | succ n ih =>
    intro m
    refine .pop (fun _ => Within (m - 1)) (stable_within m) (fun _ _ _ _ h => h.pop) fun r => ?_
    refine .push (Within (m - 1)) (stable_within (m - 1)) (fun _ _ _ h => h.push) ?_
    have hm : m - 1 - n = m - (n + 1) := by omega
    exact (hm ▸ ih (m - 1)).bind fun _ => .done (stable_within _) fun _ _ _ h => h

/-- Whatever it returned, and `Quiet` where that is true. -/
def QuietOnTrue (r : Bool × List UInt8) (tx rx : List UInt8) (s : CardState) : Prop := r.1 = true → Quiet tx rx s

theorem triple_false {P : List UInt8 → List UInt8 → CardState → Prop} (buffer : List UInt8) :
    Triple fifoDepth card.answer P (.done (false, buffer)) QuietOnTrue :=
  Triple.pre (P := fun _ _ _ => True) (.done (fun _ _ _ _ _ => trivial) fun _ _ _ _ h => nomatch h) fun _ _ _ _ => trivial

theorem triple_deassertCS (r : Bool × List UInt8) :
    Triple fifoDepth card.answer (QuietOnTrue r) (deassertCS >>= fun _ => pure r) QuietOnTrue := by
  refine .push (QuietOnTrue r) (stable_quiet.imp) (fun _ _ _ h hr => (h hr).push) ?_
  exact .done stable_quiet.imp fun _ _ _ h => h

/-- As many bytes as a block and its CRC. -/
theorem triple_quiet_done (r : Bool × List UInt8) : Triple fifoDepth card.answer (Within 0) (.done r) QuietOnTrue := by
  refine .done (stable_within 0) fun _ _ _ ⟨l, hl, hb⟩ _ => ?_
  obtain rfl : l = [] := List.eq_nil_of_length_eq_zero (by omega)
  exact behind_nil_iff.mp hb

theorem triple_readDataBlock (timeoutVal : Nat) :
    Triple fifoDepth card.answer BeforeToken (readDataBlock timeoutVal) QuietOnTrue := by
  refine (triple_readToken timeoutVal).bind fun ⟨token, timeout⟩ => ?_
  dsimp only
  split
  · exact triple_false []
  split
  · exact triple_false []
  · next ht =>
    have htoken : token ≠ 0xFF := by
      rintro rfl
      exact ht (by decide)
    refine ((triple_readBytes sdBlockSize 514).pre fun _ _ _ h => h htoken).bind fun buffer => ?_
    refine ((triple_readBytes 2 2).pre fun _ _ _ h => h.mono (by decide)).bind fun _ => ?_
    exact triple_quiet_done (true, buffer)

theorem length_partial (startOffset count : UInt16) :
    514 ≤ startOffset.toNat + count.toNat + (bytesToDiscard startOffset count).toNat := by
  have h1 := startOffset.toNat_lt
  have h2 := count.toNat_lt
  unfold bytesToDiscard
  rw [UInt16.toNat_add, UInt16.toNat_sub, UInt16.toNat_sub]
  simp only [UInt16.reduceToNat]
  omega

theorem triple_readDataBlockPartial (startOffset count : UInt16) (timeoutVal : Nat) :
    Triple fifoDepth card.answer BeforeToken (readDataBlockPartial startOffset count timeoutVal) QuietOnTrue := by
  have hlen := length_partial startOffset count
  refine (triple_readToken timeoutVal).bind fun ⟨token, timeout⟩ => ?_
  dsimp only
  split
  · exact triple_false []
  · next ht =>
    have htoken : token ≠ 0xFF := by
      rintro rfl
      exact ht (.inr (by decide))
    generalize bytesToDiscard startOffset count = rest at hlen
    refine ((triple_readBytes startOffset.toNat 514).pre fun _ _ _ h => h htoken).bind fun _ => ?_
    refine (triple_readBytes count.toNat _).bind fun buffer => ?_
    refine (triple_readBytes rest.toNat _).bind fun _ => ?_
    exact (triple_quiet_done (true, buffer)).pre fun _ _ _ h => h.mono (by omega)

/-- What both reads are: the command, R1, and the block. -/
theorem triple_read (a : UInt32) {block : SpiProg (Bool × List UInt8)}
    (hb : Triple fifoDepth card.answer BeforeToken block QuietOnTrue) :
    Triple fifoDepth card.answer Quiet (do
      sdSendCommand 0x51 a 0x01
      let cmd17R1 ← readR1Response 0xFF
      if cmd17R1 ≠ 0x00 then
        deassertCS
        pure (false, [])
      else
        let r ← block
        deassertCS
        pure r) QuietOnTrue := by
  refine (triple_sdSendCommand a).bind fun _ => (triple_readR1Response _ _ _ _ _ 0xFF).bind fun r1 => ?_
  split
  · exact .pre (triple_deassertCS (false, [])) fun _ _ _ _ h => nomatch h
  · next h =>
    have h1 : r1 ≠ 0xFF := by
      rintro rfl
      exact h (by decide)
    exact (hb.bind triple_deassertCS).pre fun _ _ _ hp => hp h1

theorem triple_sdReadBlock (a : UInt32) : Triple fifoDepth card.answer Quiet (sdReadBlock a) QuietOnTrue :=
  triple_read a (triple_readDataBlock 0xFFFF)

theorem triple_sdReadPartialBlock (a : UInt32) (offset length : UInt16) :
    Triple fifoDepth card.answer Quiet (sdReadPartialBlock a offset length) QuietOnTrue :=
  triple_read a (triple_readDataBlockPartial offset length 0xFFFF)

end

end OpenGpos.Sd
