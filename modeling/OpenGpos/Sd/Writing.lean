/-
  OpenGpos.Sd.Writing — the end of every `sdWriteBlock`. The card answers the data with the byte
  behind the CRC, but the driver polls for it without clocking one: what it reads are bytes that
  came while it sent the data, and those are 0xFF. A card that takes the block leaves it waiting
  for ever, and a card that does not is reported as it should be. `Next` is what the SD protocol
  lets a card do with a byte, as far as a write needs it.
-/
import OpenGpos.Lib.Losses
import OpenGpos.Sd.Clocking

namespace OpenGpos.Sd

open OpenGpos.Lib.Fifo

/-! ## Cards that blocks are written to -/

/-- How far a card is with a block to be written. -/
inductive WriteStage where
  | ready
  /-- So many bytes of CMD24 are still to come. -/
  | command (left : Nat)
  /-- The command was accepted. -/
  | accepted
  /-- So many bytes of the data and its CRC are still to come. -/
  | data (left : Nat)
  | other
deriving DecidableEq

/-- A byte, the stage behind it and what the card sends meanwhile. -/
inductive Next : WriteStage → UInt8 → WriteStage → UInt8 → Prop
  | idle : Next .ready 0xFF .ready 0xFF
  | start : Next .ready 0x58 (.command 5) 0xFF
  | argument {n : Nat} {b : UInt8} : Next (.command (n + 1)) b (.command n) 0xFF
  | later : Next (.command 0) 0xFF (.command 0) 0xFF
  | accept : Next (.command 0) 0xFF .accepted 0x00
  | reject {r : UInt8} : r ≠ 0x00 → Next (.command 0) 0xFF .ready r
  | hold : Next .accepted 0xFF .accepted 0xFF
  | token : Next .accepted 0xFE (.data 514) 0xFF
  | byte {n : Nat} {b : UInt8} : Next (.data (n + 1)) b (.data n) 0xFF

/-- Where the protocol says what comes next, the card keeps to it. -/
structure WritableCard (σ : Type) where
  answer : σ → UInt8 → σ × UInt8
  stage : σ → WriteStage
  next : ∀ s b, (∃ t r, Next (stage s) b t r) → Next (stage s) b (stage (answer s b).1) (answer s b).2

/-! ## What the driver may still read -/

/-- The bytes other than 0xFF. -/
def loud (l : List UInt8) : List UInt8 := l.filter (· ≠ 0xFF)

theorem loud_append (l l' : List UInt8) : loud (l ++ l') = loud l ++ loud l' := List.filter_append l l'

theorem loud_cons {r : UInt8} (hr : r ≠ 0xFF) (l : List UInt8) : loud (r :: l) = r :: loud l :=
  List.filter_cons_of_pos (decide_eq_true hr)

theorem loud_sublist (l : List UInt8) : (loud l).Sublist l := List.filter_sublist

section
variable {σ : Type} (card : WritableCard σ)

/-- Behind at most `n` bytes the card is at `t`, and of the bytes only some of `rs` are not 0xFF. -/
def Under (t : WriteStage) (rs : List UInt8) (n : Nat) (l : List UInt8) (s : σ) : Prop :=
  card.stage s = t ∧ l.length ≤ n ∧ (loud l).Sublist rs

/-- How far a card may be with its R1, and the R1. -/
inductive Outcome : WriteStage → List UInt8 → Prop
  | waiting : Outcome (.command 0) []
  | accepted : Outcome .accepted [0x00]
  | rejected {r : UInt8} : r ≠ 0x00 → Outcome .ready [r]

/-- The whole command is on its way, or behind it. -/
def Replying (n : Nat) (l : List UInt8) (s : σ) : Prop := ∃ t rs, Outcome t rs ∧ Under card t rs n l s

/-- Behind the loop for R1. -/
def R1Read (n : Nat) (r : UInt8) (l : List UInt8) (s : σ) : Prop :=
  (r = 0x00 → Under card .accepted [] n l s) ∧ (r ≠ 0x00 → Replying card n l s)

variable {card}

theorem lossy_under (t : WriteStage) (rs : List UInt8) (n : Nat) : Lossy (Under card t rs n) :=
  fun _ _ _ hs ⟨ht, hl, hr⟩ => ⟨ht, hs.length_le.trans hl, (hs.filter _).trans hr⟩

theorem lossy_replying (n : Nat) : Lossy (Replying card n) :=
  fun l l' s hs ⟨t, rs, ho, h⟩ => ⟨t, rs, ho, lossy_under t rs n l l' s hs h⟩

theorem lossy_r1Read (n : Nat) (r : UInt8) : Lossy (R1Read card n r) :=
  fun l l' s hs h => ⟨fun hr => lossy_under _ _ n l l' s hs (h.1 hr), fun hr => lossy_replying n l l' s hs (h.2 hr)⟩

section
variable {t u : WriteStage} {rs : List UInt8} {n : Nat} {b r : UInt8} {l : List UInt8} {s : σ}

theorem Under.push (h : Under card t rs n l s) (hb : ∃ u r, Next t b u r) : ∃ u r, Next t b u r ∧
    Under card u (rs ++ loud [r]) (n + 1) (l ++ [(card.answer s b).2]) (card.answer s b).1 := by
  obtain ⟨rfl, hl, hr⟩ := h
  refine ⟨_, _, card.next s b hb, rfl, ?_, ?_⟩
  · rw [List.length_append]
    exact Nat.succ_le_succ hl
  · rw [loud_append]
    exact hr.append (.refl _)

/-- A byte that can only bring 0xFF. -/
theorem Under.push_silent (hb : Next t b u 0xFF) (ho : ∀ u' r, Next t b u' r → u' = u ∧ r = 0xFF)
    (h : Under card t rs n l s) :
    Under card u rs (n + 1) (l ++ [(card.answer s b).2]) (card.answer s b).1 := by
  obtain ⟨u', r, hn, h⟩ := h.push ⟨u, 0xFF, hb⟩
  obtain ⟨rfl, rfl⟩ := ho u' r hn
  rw [show loud [0xFF] = [] from rfl, List.append_nil] at h
  exact h

theorem Under.pop (h : Under card t rs n (r :: l) s) :
    Under card t rs (n - 1) l s ∧ (r ≠ 0xFF → ∃ rs', (r :: rs').Sublist rs ∧ Under card t rs' (n - 1) l s) := by
  obtain ⟨ht, hl, hr⟩ := h
  have hl : l.length ≤ n - 1 := Nat.le_pred_of_lt hl
  refine ⟨⟨ht, hl, .trans ?_ hr⟩, fun hff => ⟨loud l, ?_, ht, hl, .refl _⟩⟩
  · exact (List.sublist_cons_self r l).filter _
  · rw [← loud_cons hff]
    exact hr

theorem Under.mono {rs' : List UInt8} {n' : Nat} (h : Under card t rs n l s) (hr : rs.Sublist rs') (hn : n ≤ n') :
    Under card t rs' n' l s :=
  ⟨h.1, h.2.1.trans hn, h.2.2.trans hr⟩

theorem Replying.push (h : Replying card n l s) :
    Replying card (n + 1) (l ++ [(card.answer s 0xFF).2]) (card.answer s 0xFF).1 := by
  obtain ⟨t, rs, ho, h⟩ := h
  cases ho with
  | waiting =>
    obtain ⟨u, r, hn, h⟩ := h.push (b := 0xFF) ⟨_, _, .later⟩
    cases hn with
    | later => exact ⟨_, _, .waiting, h⟩
    | accept => exact ⟨_, _, .accepted, h⟩
    | reject hr => exact ⟨_, _, .rejected hr, h.mono (loud_sublist [r]) (Nat.le_refl _)⟩
  | accepted => exact ⟨_, _, .accepted, h.push_silent .hold fun _ _ hn => by cases hn; exact ⟨rfl, rfl⟩⟩
  | rejected hr => exact ⟨_, _, .rejected hr, h.push_silent .idle fun _ _ hn => by cases hn; exact ⟨rfl, rfl⟩⟩

theorem Replying.pop (h : Replying card n (r :: l) s) : R1Read card (n - 1) r l s := by
  obtain ⟨t, rs, ho, h⟩ := h
  refine ⟨?_, fun _ => ⟨t, rs, ho, h.pop.1⟩⟩
  rintro rfl
  obtain ⟨rs', hsub, h'⟩ := h.pop.2 (by decide)
  cases ho with
  | waiting => cases hsub
  | accepted =>
    obtain rfl : rs' = [] := List.sublist_nil.mp (List.cons_sublist_cons.mp hsub)
    exact h'
  | rejected hr =>
    have hm := hsub.subset List.mem_cons_self
    exact absurd (List.mem_singleton.mp hm).symm hr

theorem R1Read.push (h : R1Read card n r l s) :
    R1Read card (n + 1) r (l ++ [(card.answer s 0xFF).2]) (card.answer s 0xFF).1 :=
  ⟨fun hr => (h.1 hr).push_silent .hold fun _ _ hn => by cases hn; exact ⟨rfl, rfl⟩, fun hr => (h.2 hr).push⟩

theorem Replying.not_data (h : Replying card n l s) (m : Nat) : card.stage s ≠ .data m := by
  obtain ⟨t, rs, ho, ht, -, -⟩ := h
  rw [ht]
  cases ho <;> exact nofun

end

/-! ## The parts of a write -/

/-- What the driver may still read, with the bytes that are under way. -/
abbrev Port (card : WritableCard σ) (L : List UInt8 → σ → Prop) : List UInt8 → List UInt8 → σ → Prop :=
  Upcoming card.answer L

section
variable {α : Type} {n left : Nat} {b : UInt8} {k : SpiProg α} {Q : α → List UInt8 → List UInt8 → σ → Prop}

theorem triple_argument (hk : Triple fifoDepth card.answer (Port card (Under card (.command left) [] (n + 1))) k Q) :
    Triple fifoDepth card.answer (Port card (Under card (.command (left + 1)) [] n)) (.push b k) Q := by
  refine (lossy_under _ _ n).push _ (fun l s h => h.push_silent .argument fun _ _ hn => ?_) hk
  cases hn
  exact ⟨rfl, rfl⟩

theorem triple_byte (hk : Triple fifoDepth card.answer (Port card (Under card (.data left) [] (n + 1))) k Q) :
    Triple fifoDepth card.answer (Port card (Under card (.data (left + 1)) [] n)) (.push b k) Q := by
  refine (lossy_under _ _ n).push _ (fun l s h => h.push_silent .byte fun _ _ hn => ?_) hk
  cases hn
  exact ⟨rfl, rfl⟩

end

variable (card) in
theorem triple_sdSendCommand24 (a : UInt32) (n : Nat) :
    Triple fifoDepth card.answer (Port card (Under card .ready [] n)) (sdSendCommand 0x58 a 0x01)
      fun _ => Port card (Replying card (n + 7)) := by
  refine (lossy_under _ _ n).push (Under card (.command 5) [] (n + 1)) (fun l s h => ?_) ?_
  · exact h.push_silent .start fun _ _ hn => by cases hn; exact ⟨rfl, rfl⟩
  refine triple_argument (triple_argument (triple_argument (triple_argument (triple_argument ?_))))
  refine (lossy_under _ _ _).push (Replying card (n + 7)) (fun l s h => Replying.push ⟨_, _, .waiting, h⟩) ?_
  exact (lossy_replying _).done fun _ _ h => h

variable (card) in
theorem triple_readR1Response24 (n timeout : Nat) :
    Triple fifoDepth card.answer (Port card (Replying card (n + 1))) (readR1Response timeout)
      fun r => Port card (R1Read card (n + 1) r) := by
  induction timeout with
  | zero => exact (lossy_replying _).done fun _ _ h => ⟨fun hr => absurd hr (by decide), fun _ => h⟩
  | succ timeout ih =>
    refine (lossy_replying _).pop (R1Read card n) (fun r l s h => h.pop) fun r => ?_
    refine (lossy_r1Read n r).push (R1Read card (n + 1) r) (fun l s h => h.push) ?_
    split
    · next hr => exact ih.pre fun tx rx s h => h.2 (by rw [hr.1]; decide)
    · exact (lossy_r1Read _ r).done fun _ _ h => h

variable (card) in
theorem triple_sendBytes (bs : List UInt8) : ∀ m n : Nat, Triple fifoDepth card.answer
    (Port card (Under card (.data (m + bs.length)) [] n)) (sendBytes bs)
    fun _ => Port card (Under card (.data m) [] (n + bs.length)) := by
  induction bs with
  | nil => exact fun m n => (lossy_under _ _ _).done fun _ _ h => h
  | cons b bs ih =>
    intro m n
    refine triple_byte ?_
    have hl : n + 1 + bs.length = n + (b :: bs).length := by rw [List.length_cons]; omega
    exact hl ▸ ih m (n + 1)

variable (card) in
theorem triple_sendDataBlock (data : Nat → UInt8) (n : Nat) :
    Triple fifoDepth card.answer (Port card (Under card .accepted [] n)) (sendDataBlock data)
      fun _ => Port card (Under card (.data 0) [] (n + 515)) := by
  have hl : ((List.range sdBlockSize).map data).length = 512 := by simp [sdBlockSize]
  unfold sendDataBlock
  generalize (List.range sdBlockSize).map data = bs at hl
  refine (lossy_under _ _ n).push (Under card (.data 514) [] (n + 1)) (fun l s h => ?_) ?_
  · exact h.push_silent .token fun _ _ hn => by cases hn; exact ⟨rfl, rfl⟩
  have hb := triple_sendBytes card bs 2 (n + 1)
  rw [hl] at hb
  exact hb.bind fun _ => triple_byte (triple_byte ((lossy_under _ _ _).done fun _ _ h => h))

/-! ## The poll for the data response -/

section
variable {α : Type} {f : UInt8 → SpiProg α} {c c' : Config UInt8 σ α}

/-- Fewer bytes are under way than the poll would read, and all of them are 0xFF. -/
def Polling (card : WritableCard σ) (f : UInt8 → SpiProg α) (c : Config UInt8 σ α) : Prop :=
  ∃ k n, c.prog = readDataResponse k >>= f ∧ n < k ∧ Port card (Under card (.data 0) [] n) c.tx c.rx c.peer

theorem Polling.step (h : Polling card f c) (hs : Step fifoDepth card.answer c c') : Polling card f c' := by
  obtain ⟨k, n, hp, hn, hu⟩ := h
  obtain ⟨k, rfl⟩ := Nat.exists_eq_add_one_of_ne_zero (Nat.ne_zero_of_lt hn)
  cases hs with
  | push => cases hp
  | @pop _ tx rx r s =>
    obtain rfl := Prog.pop.inj hp
    have hu : Under card (.data 0) [] n (r :: (rx ++ replies card.answer s tx)) (after card.answer s tx) := hu
    have hlen := hu.2.1
    rw [List.length_cons] at hlen
    have hr : r = 0xFF := by
      by_contra hr
      obtain ⟨rs', hsub, -⟩ := hu.pop.2 hr
      cases hsub
    subst hr
    exact ⟨k, n - 1, rfl, by omega, hu.pop.1⟩
  | shift => exact ⟨k + 1, n, hp, hn, (lossy_under _ _ n).stable _ _ _ _ hu⟩

/-- Behind the whole block, the poll waits for ever. -/
theorem Polling.must (h : Polling card f c) :
    Must fifoDepth card.answer (fun c => Waits c ∧ card.stage c.peer = .data 0) c := by
  refine Must.of_invariant (Polling card f) (fun _ _ => Polling.step) ?_ h
  rintro ⟨prog, tx, rx, s⟩ ⟨k, n, hp, hn, hu⟩
  obtain ⟨k, rfl⟩ := Nat.exists_eq_add_one_of_ne_zero (Nat.ne_zero_of_lt hn)
  obtain rfl : prog = _ := hp
  cases rx with
  | cons r rx => exact .inr ⟨_, .pop⟩
  | nil => cases tx with
    | nil => exact .inl ⟨⟨⟨_, rfl⟩, rfl, rfl⟩, hu.1⟩
    | cons b tx => exact .inr ⟨_, .shift⟩

end

/-! ## The write -/

theorem replies_ready {m : Nat} {s : σ} (hs : card.stage s = .ready) :
    replies card.answer s (idle m) = idle m ∧ card.stage (after card.answer s (idle m)) = .ready := by
  induction m generalizing s with
  | zero => exact ⟨rfl, hs⟩
  | succ m ih =>
    have hn := card.next s 0xFF (by rw [hs]; exact ⟨_, _, .idle⟩)
    rw [hs] at hn
    generalize hs' : card.stage (card.answer s 0xFF).1 = t at hn
    generalize hr : (card.answer s 0xFF).2 = r at hn
    cases hn
    obtain ⟨h1, h2⟩ := ih hs'
    refine ⟨?_, h2⟩
    show (card.answer s 0xFF).2 :: replies card.answer (card.answer s 0xFF).1 (idle m) = _
    rw [hr, h1]
    rfl

theorem loud_idle (n : Nat) : loud (idle n) = [] := by
  refine List.filter_eq_nil_iff.mpr fun x hx => ?_
  rw [List.eq_of_mem_replicate hx]
  decide

theorem port_idle {m n : Nat} {s : σ} (hs : card.stage s = .ready) :
    Port card (Under card .ready [] (m + n)) (idle m) (idle n) s := by
  obtain ⟨hr, ht⟩ := replies_ready (m := m) hs
  refine ⟨ht, ?_, ?_⟩
  · rw [hr, List.length_append]
    simp only [idle, List.length_replicate]
    omega
  · rw [hr, loud_append, loud_idle, loud_idle]
    exact .refl _

/-- A paced program never waits before its end. -/
theorem Keeps.must_bind {α β : Type} {P : List UInt8 → List UInt8 → σ → Prop} {p : SpiProg α}
    {Q : α → List UInt8 → List UInt8 → σ → Prop} {R : Config UInt8 σ β → Prop} {f : α → SpiProg β} {tx rx : List UInt8}
    {s : σ} (hk : Keeps 0 p) (hp : Triple fifoDepth card.answer P p Q) (h : P tx rx s)
    (hf : ∀ a tx rx s, Q a tx rx s → Must fifoDepth card.answer R ⟨f a, tx, rx, s⟩) :
    Must fifoDepth card.answer R ⟨p >>= f, tx, rx, s⟩ :=
  hp.must_bind (by decide) (hk.owed 0 (Nat.le_refl 0) (Nat.zero_le _)) (Nat.zero_le _) (Nat.zero_le _) h hf

/-- Whatever the timing, a write that ends returns false and the card has not begun to take the
    block; otherwise the card has the whole block and the write waits for ever. -/
theorem sdWriteBlock_never_succeeds (card : WritableCard σ) (blockAddress : UInt32) (dataBuffer : Nat → UInt8)
    {m n : Nat} {s : σ} (hm : m ≤ fifoDepth) (hn : n ≤ fifoDepth) (hs : card.stage s = .ready) :
    Must fifoDepth card.answer
      (fun c => (c.prog = .done false ∧ ∀ left, card.stage (after card.answer c.peer c.tx) ≠ .data left) ∨
        (Waits c ∧ card.stage c.peer = .data 0))
      ⟨sdWriteBlock blockAddress dataBuffer, idle m, idle n, s⟩ := by
  have hcommand := (triple_sdSendCommand24 card blockAddress (m + n)).bind fun _ =>
    triple_readR1Response24 card (m + n + 6) 0xFF
  have hkeeps := (keeps_sdSendCommand 0x58 blockAddress 0x01).bind fun _ => keeps_readR1Response 0xFF
  unfold sdWriteBlock
  rw [← Prog.bind_assoc]
  refine hkeeps.must_bind hcommand (port_idle hs) fun r tx rx s h => ?_
  by_cases hr : r = 0x00
  · rw [if_neg (not_not.mpr hr)]
    have hdata := triple_sendDataBlock card dataBuffer (m + n + 6 + 1)
    refine (keeps_sendDataBlock dataBuffer).must_bind hdata (h.1 hr) fun _ tx rx s h => ?_
    refine Must.mono (fun c hc => .inr hc) (Polling.must ⟨1000, m + n + 6 + 1 + 515, rfl, ?_, h⟩)
    unfold fifoDepth at hm hn
    omega
  · rw [if_pos hr]
    have hend : Triple fifoDepth card.answer (Port card (Replying card (m + n + 6 + 1))) deassertCS
        fun _ => Port card (Replying card (m + n + 6 + 1 + 1)) :=
      (lossy_replying _).push _ (fun _ _ h => h.push) ((lossy_replying _).done fun _ _ h => h)
    refine keeps_deassertCS.must_bind hend (h.2 hr) fun _ tx rx s h => ?_
    exact .now (.inl ⟨rfl, fun left => Replying.not_data h left⟩)

/-- A card that accepts every block. -/
def acceptingCard : WritableCard WriteStage where
  answer
    | .ready, b => if b = 0x58 then (.command 5, 0xFF) else (.ready, 0xFF)
    | .command (n + 1), _ => (.command n, 0xFF)
    | .command 0, _ => (.accepted, 0x00)
    | .accepted, b => if b = 0xFE then (.data 514, 0xFF) else (.accepted, 0xFF)
    | .data (n + 1), _ => (.data n, 0xFF)
    | .data 0, _ => (.other, 0xE5)
    | .other, _ => (.other, 0xFF)
  stage := id
  next := by
    rintro s b ⟨t, r, h⟩
    cases h with
    | idle => exact .idle
    | start => exact .start
    | argument => exact .argument
    | later => exact .accept
    | accept => exact .accept
    | reject => exact .accept
    | hold => exact .hold
    | token => exact .token
    | byte => exact .byte

/-- A block of zeroes behind one idle byte. -/
theorem sdWriteBlock_never_succeeds_sample : Must fifoDepth acceptingCard.answer
    (fun c =>
      (c.prog = .done false ∧ ∀ left, acceptingCard.stage (after acceptingCard.answer c.peer c.tx) ≠ .data left) ∨
        (Waits c ∧ acceptingCard.stage c.peer = .data 0))
    ⟨sdWriteBlock 7 fun _ => 0, idle 0, idle 1, .ready⟩ :=
  sdWriteBlock_never_succeeds acceptingCard 7 (fun _ => 0) (by decide) (by decide) rfl

end

end OpenGpos.Sd
