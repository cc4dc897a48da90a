/-
  OpenGpos.Sd.Select — the chip select of the card. The functions of lib/sd/SD.c that move it are
  written again with its changes among their events; the others are taken from `Sd.Driver` as they
  are. What goes to the port and what comes back is that of `Sd.Driver` (`Op.erase_prog`). Every
  return releases the card but two (`released_iff`): SDInit does not when it succeeds, SDShutdown
  does not when it fails.
-/
import OpenGpos.Sd.Readers

namespace OpenGpos.Sd.Select

open OpenGpos.Lib.Fifo OpenGpos.Lib.Tape

/-- Bit 9 of the output register, or a byte on the port. -/
inductive Signal where
  | cs (high : Bool)
  | byte (b : UInt8)
  deriving DecidableEq

abbrev BusProg (α : Type) := Proc Signal UInt8 α

def Signal.sent : Signal → Option UInt8
  | .cs _ => none
  | .byte b => some b

/-- A program that leaves the chip select alone. -/
def port {α : Type} (p : SpiProg α) : BusProg α := .ofProg .byte p

def outSet : BusProg Unit := .tell (.cs true)

def outClr : BusProg Unit := .tell (.cs false)

def deassertCS : BusProg Unit := do
  outSet
  port Sd.deassertCS

def sdSendCommand (command : UInt8) (args : UInt32) (crc : UInt8) : BusProg Unit := do
  outClr
  port (Sd.sdSendCommand command args crc)

def acmd41 : Nat → BusProg Bool
  | 0 => pure false
  | acmd41Timeout + 1 => do
    sdSendCommand 0x77 0x00000000 0x65
    let cmd55R1 ← port (readR1Response 0xFF)
    deassertCS
    if cmd55R1 ≠ 0x01 then pure false
    else
      sdSendCommand 0x69 0x40000000 0x77
      let acmd41R1 ← port (readR1Response 0xFF)
      deassertCS
      if acmd41R1 = 0x00 then pure true else acmd41 acmd41Timeout

def readOcr : BusProg Bool := do
  sdSendCommand 0x7A 0x00000000 0x01
  let cmd58R1 ← port (readR1Response 0xFF)
  if cmd58R1 = 0x00 then
    let ocrData ← port (readBytes 4)
    if ocrData.getD 0 0 &&& 0x40 = 0 then
      deassertCS
      pure false
    else pure true
  else
    deassertCS
    pure false

def sdInit : BusProg Bool := do
  outSet
  port (sendBytes (List.replicate 10 0xFF))
  sdSendCommand 0x40 0x00000000 0x95
  let cmd0R1 ← port (readR1Response 0xFF)
  if cmd0R1 ≠ 0x01 then
    deassertCS
    pure false
  else
    sdSendCommand 0x48 0x000001AA 0x87
    let cmd8R1 ← port (readR1Response 0xFF)
    if cmd8R1 = 0x01 then
      let r7Data ← port (readBytes 4)
      deassertCS
      if r7Data.getD 2 0 = 0x01 ∧ r7Data.getD 3 0 = 0xAA then
        let ready ← acmd41 5000
        if ready then readOcr else pure false
      else pure false
    else
      deassertCS
      pure false

def sdReadBlock (blockAddress : UInt32) : BusProg (Bool × List UInt8) := do
  sdSendCommand 0x51 blockAddress 0x01
  let cmd17R1 ← port (readR1Response 0xFF)
  if cmd17R1 ≠ 0x00 then
    deassertCS
    pure (false, [])
  else
    let r ← port (readDataBlock 0xFFFF)
    if r.1 = false then
      deassertCS
      pure r
    else
      deassertCS
      pure r

def sdWriteBlock (blockAddress : UInt32) (dataBuffer : Nat → UInt8) : BusProg Bool := do
  sdSendCommand 0x58 blockAddress 0x01
  let cmd24R1 ← port (readR1Response 0xFF)
  if cmd24R1 ≠ 0x00 then
    deassertCS
    pure false
  else
    port (sendDataBlock dataBuffer)
    let dataResponse ← port (readDataResponse 1000)
    if dataResponse &&& 0x1F ≠ 0x05 then
      deassertCS
      pure false
    else
      let ok ← port (sdWaitForNotBusy 1000001)
      if ok = false then
        deassertCS
        pure ok
      else
        deassertCS
        pure ok

def sdShutdown : BusProg Bool := do
  sdSendCommand 0x40 0x00000000 0x95
  let cmd0R1 ← port (readR1Response 0xFF)
  if cmd0R1 = 0x01 then
    deassertCS
    pure true
  else pure false

def sdReadPartialBlock (blockNumber : UInt32) (offset length : UInt16) : BusProg (Bool × List UInt8) := do
  sdSendCommand 0x51 blockNumber 0x01
  let cmd17R1 ← port (readR1Response 0xFF)
  if cmd17R1 ≠ 0x00 then
    deassertCS
    pure (false, [])
  else
    let r ← port (readDataBlockPartial offset length 0xFFFF)
    if r.1 = false then
      deassertCS
      pure r
    else
      deassertCS
      pure r

inductive Op where
  | init
  | readBlock (blockAddress : UInt32)
  | readPartialBlock (blockNumber : UInt32) (offset length : UInt16)
  | writeBlock (blockAddress : UInt32) (dataBuffer : Nat → UInt8)
  | shutdown

/-- The operation and the data it read, if it is a reader. -/
def Op.prog : Op → BusProg (Bool × List UInt8)
  | .init => do
    let ok ← sdInit
    pure (ok, [])
  | .readBlock a => sdReadBlock a
  | .readPartialBlock a offset length => sdReadPartialBlock a offset length
  | .writeBlock a data => do
    let ok ← sdWriteBlock a data
    pure (ok, [])
  | .shutdown => do
    let ok ← sdShutdown
    pure (ok, [])

/-! ## The same port -/

/-- The operation as the port sees it. -/
def Op.spi : Op → SpiProg (Bool × List UInt8)
  | .init => do
    let ok ← Sd.sdInit
    pure (ok, [])
  | .readBlock a => Sd.sdReadBlock a
  | .readPartialBlock a offset length => Sd.sdReadPartialBlock a offset length
  | .writeBlock a data => do
    let ok ← Sd.sdWriteBlock a data
    pure (ok, [])
  | .shutdown => do
    let ok ← Sd.sdShutdown
    pure (ok, [])

@[simp] theorem erase_pure {α : Type} (a : α) : (pure a : BusProg α).erase Signal.sent = pure a := rfl

@[simp] theorem erase_port {α : Type} (p : SpiProg α) : (port p).erase Signal.sent = p :=
  Proc.erase_ofProg (show ∀ b, Signal.sent (.byte b) = some b from fun _ => rfl) p

@[simp] theorem erase_outSet : outSet.erase Signal.sent = pure () := rfl
@[simp] theorem erase_outClr : outClr.erase Signal.sent = pure () := rfl

@[simp] theorem erase_deassertCS : deassertCS.erase Signal.sent = Sd.deassertCS := by simp [deassertCS]

@[simp] theorem erase_sdSendCommand (command : UInt8) (args : UInt32) (crc : UInt8) :
    (sdSendCommand command args crc).erase Signal.sent = Sd.sdSendCommand command args crc := by
  simp [sdSendCommand]

@[simp] theorem erase_acmd41 (n : Nat) : (acmd41 n).erase Signal.sent = Sd.acmd41 n := by
  induction n with
  | zero => rfl
  | succ n ih => simp [acmd41, Sd.acmd41, ih]

@[simp] theorem erase_readOcr : readOcr.erase Signal.sent = Sd.readOcr := by simp [readOcr, Sd.readOcr]

@[simp] theorem erase_sdInit : sdInit.erase Signal.sent = Sd.sdInit := by simp [sdInit, Sd.sdInit]

@[simp] theorem erase_sdShutdown : sdShutdown.erase Signal.sent = Sd.sdShutdown := by
  simp [sdShutdown, Sd.sdShutdown]

/-- Without the chip select the operations are those of the driver. -/
theorem Op.erase_prog (op : Op) : op.prog.erase Signal.sent = op.spi := by
  cases op with
  | init => simp [Op.prog, Op.spi]
  | readBlock a => simp [Op.prog, Op.spi, sdReadBlock, Sd.sdReadBlock]
  | readPartialBlock a offset length => simp [Op.prog, Op.spi, sdReadPartialBlock, Sd.sdReadPartialBlock]
  | writeBlock a data => simp [Op.prog, Op.spi, sdWriteBlock, Sd.sdWriteBlock]
  | shutdown => simp [Op.prog, Op.spi]

/-! ## Released -/

/-- The last change of the chip select is to high, and one byte 0xFF comes behind it. -/
def Released (events : List Signal) : Prop := ∃ before, events = before ++ [.cs true, .byte 0xFF]

theorem Released.behind {events : List Signal} (h : Released events) (before : List Signal) :
    Released (before ++ events) := by
  obtain ⟨b, rfl⟩ := h
  exact ⟨before ++ b, (List.append_assoc _ _ _).symm⟩

/-- Two bytes at the end: the card is selected, or more than the one byte was sent. -/
theorem not_released_bytes (before : List Signal) {l : List UInt8} (hl : 2 ≤ l.length) :
    ¬ Released (before ++ l.map Signal.byte) := by
  rintro ⟨b, h⟩
  obtain ⟨l, y, rfl⟩ := List.eq_nil_or_concat l |>.resolve_left fun h => by simp [h] at hl
  obtain ⟨l, x, rfl⟩ := List.eq_nil_or_concat l |>.resolve_left fun h => by simp [h] at hl
  have h' : (before ++ l.map Signal.byte ++ [.byte x]) ++ [.byte y] = (b ++ [.cs true]) ++ [.byte 0xFF] := by
    simpa using h
  have hx := List.append_inj_right' (List.append_inj_left' h' rfl) rfl
  cases hx

variable {tape : Nat → UInt8}

/-- Where the program ends with such a value, it released the card last. -/
def Releases {α : Type} (tape : Nat → UInt8) (P : α → Prop) (p : BusProg α) : Prop :=
  ∀ i, P (p.play tape i).value → Released (p.play tape i).events

/-- The same of a program that may also do nothing. -/
def Settles {α : Type} (tape : Nat → UInt8) (P : α → Prop) (p : BusProg α) : Prop :=
  ∀ i, P (p.play tape i).value → (p.play tape i).events = [] ∨ Released (p.play tape i).events

/-- Where the program ends with such a value, bytes were the last it sent. -/
def Holds {α : Type} (tape : Nat → UInt8) (P : α → Prop) (p : BusProg α) : Prop :=
  ∀ i, P (p.play tape i).value → ∃ (before : List Signal) (l : List UInt8), 2 ≤ l.length ∧
    (p.play tape i).events = before ++ l.map Signal.byte

section
variable {α β : Type} {P : β → Prop} {p q : BusProg β} {r : BusProg α} {k : α → BusProg β}

theorem Settles.pure (b : β) : Settles tape P (pure b) := fun _ _ => Or.inl rfl

theorem Releases.settles (h : Releases tape P p) : Settles tape P p := fun i hv => Or.inr (h i hv)

theorem Settles.ite {c : Prop} [Decidable c] (hp : Settles tape P p) (hq : Settles tape P q) :
    Settles tape P (if c then p else q) := by
  by_cases h : c
  · rwa [if_pos h]
  · rwa [if_neg h]

theorem Releases.ite {c : Prop} [Decidable c] (hp : Releases tape P p) (hq : Releases tape P q) :
    Releases tape P (if c then p else q) := by
  by_cases h : c
  · rwa [if_pos h]
  · rwa [if_neg h]

theorem Holds.ite {c : Prop} [Decidable c] (hp : Holds tape P p) (hq : Holds tape P q) :
    Holds tape P (if c then p else q) := by
  by_cases h : c
  · rwa [if_pos h]
  · rwa [if_neg h]

theorem Releases.bind (h : ∀ a, Releases tape P (k a)) : Releases tape P (r >>= k) := by
  intro i hv
  rw [play_bind] at hv ⊢
  exact (h _ _ hv).behind _

theorem Holds.bind (h : ∀ a, Holds tape P (k a)) : Holds tape P (r >>= k) := by
  intro i hv
  rw [play_bind] at hv ⊢
  obtain ⟨before, l, hl, he⟩ := h _ _ hv
  exact ⟨(r.play tape i).events ++ before, l, hl, by rw [List.append_assoc, ← he]⟩

/-- What comes behind a release either does nothing or releases the card again. -/
theorem Releases.after (hr : Releases tape (fun _ => True) r) (h : ∀ a, Settles tape P (k a)) :
    Releases tape P (r >>= k) := by
  intro i hv
  rw [play_bind] at hv ⊢
  rcases h _ _ hv with he | he
  · dsimp only
    rw [he, List.append_nil]
    exact hr i trivial
  · exact he.behind _

theorem releases_deassertCS : Releases tape (fun _ => True) deassertCS := fun _ _ => ⟨[], rfl⟩

/-- The exit of a failed step. -/
theorem releases_exit (b : β) : Releases tape P (deassertCS >>= fun _ => pure b) :=
  releases_deassertCS.after fun _ => Settles.pure b

theorem Holds.pure {b : β} (h : ¬ P b) : Holds tape P (pure b) := fun _ hv => absurd hv h

end

/-! ## The operations -/

section
variable {P : Bool → Prop} {Q : Bool × List UInt8 → Prop}

theorem releases_sdReadBlock (a : UInt32) : Releases tape Q (sdReadBlock a) := by
  refine Releases.bind fun _ => Releases.bind fun _ => Releases.ite (releases_exit _) ?_
  exact Releases.bind fun _ => Releases.ite (releases_exit _) (releases_exit _)

theorem releases_sdReadPartialBlock (a : UInt32) (offset length : UInt16) :
    Releases tape Q (sdReadPartialBlock a offset length) := by
  refine Releases.bind fun _ => Releases.bind fun _ => Releases.ite (releases_exit _) ?_
  exact Releases.bind fun _ => Releases.ite (releases_exit _) (releases_exit _)

theorem releases_sdWriteBlock (a : UInt32) (data : Nat → UInt8) : Releases tape P (sdWriteBlock a data) := by
  refine Releases.bind fun _ => Releases.bind fun _ => Releases.ite (releases_exit _) ?_
  refine Releases.bind fun _ => Releases.bind fun _ => Releases.ite (releases_exit _) ?_
  exact Releases.bind fun _ => Releases.ite (releases_exit _) (releases_exit _)

theorem releases_acmd41 {n : Nat} (h : Settles tape P (acmd41 n)) : Releases tape P (acmd41 (n + 1)) := by
  refine Releases.bind fun _ => Releases.bind fun _ => releases_deassertCS.after fun _ => ?_
  refine Settles.ite (Settles.pure _) ?_
  refine Releases.settles (Releases.bind fun _ => Releases.bind fun _ => releases_deassertCS.after fun _ => ?_)
  exact Settles.ite (Settles.pure _) h

theorem settles_acmd41 (n : Nat) : Settles tape P (acmd41 n) := by
  induction n with
  | zero => exact Settles.pure false
  | succ n ih => exact (releases_acmd41 ih).settles

theorem releases_readOcr : Releases tape (· = false) readOcr := by
  refine Releases.bind fun _ => Releases.bind fun _ => Releases.ite ?_ (releases_exit _)
  exact Releases.bind fun _ => Releases.ite (releases_exit _) fun _ hv => Bool.noConfusion hv

theorem releases_sdInit : Releases tape (· = false) sdInit := by
  refine Releases.bind fun _ => Releases.bind fun _ => Releases.bind fun _ => Releases.bind fun _ => ?_
  refine Releases.ite (releases_exit _) ?_
  refine Releases.bind fun _ => Releases.bind fun _ => Releases.ite ?_ (releases_exit _)
  refine Releases.bind fun _ => releases_deassertCS.after fun _ => Settles.ite ?_ (Settles.pure _)
  refine Releases.settles ((releases_acmd41 (settles_acmd41 4999)).after fun _ => Settles.ite ?_ (Settles.pure _))
  exact releases_readOcr.settles

/-- The four bytes of the register are the last that is clocked. -/
theorem holds_readOcr : Holds tape (· = true) readOcr := by
  refine Holds.bind fun _ => Holds.bind fun _ => Holds.ite ?_ (Holds.bind fun _ => Holds.pure Bool.false_ne_true)
  intro i hv
  refine ⟨[], List.replicate 4 0xFF, by decide, ?_⟩
  have hocr : (port (readBytes 4)).play tape i =
      ⟨(playProg tape (readBytes 4) i).value, i + 4, List.replicate 4 (.byte 0xFF)⟩ := rfl
  rw [play_bind, hocr] at hv ⊢
  by_cases h : (playProg tape (readBytes 4) i).value.getD 0 0 &&& 0x40 = 0
  · simp only [h, if_true] at hv
    exact Bool.noConfusion hv
  · simp only [h, if_false]
    rfl

theorem holds_sdInit : Holds tape (· = true) sdInit := by
  have exit : Holds tape (· = true) (pure false) := Holds.pure Bool.false_ne_true
  refine Holds.bind fun _ => Holds.bind fun _ => Holds.bind fun _ => Holds.bind fun _ => ?_
  refine Holds.ite (Holds.bind fun _ => exit) ?_
  refine Holds.bind fun _ => Holds.bind fun _ => Holds.ite ?_ (Holds.bind fun _ => exit)
  exact Holds.bind fun _ => Holds.bind fun _ => Holds.ite (Holds.bind fun _ => Holds.ite holds_readOcr exit) exit

theorem releases_sdShutdown : Releases tape (· = true) sdShutdown := by
  refine Releases.bind fun _ => Releases.bind fun _ => Releases.ite (releases_exit _) ?_
  exact fun _ hv => Bool.noConfusion hv

/-- The command and the polls are the last that is clocked. -/
theorem holds_sdShutdown : Holds tape (· = false) sdShutdown := by
  intro i hv
  have hc : (sdSendCommand 0x40 0x00000000 0x95).play tape i =
      ⟨(), i, .cs false :: [0x40, 0, 0, 0, 0, 0x95, 0xFF].map Signal.byte⟩ := rfl
  rw [sdShutdown, play_bind, hc] at hv ⊢
  dsimp only at hv ⊢
  rw [play_bind, port, play_ofProg] at hv ⊢
  dsimp only at hv ⊢
  by_cases h : (playProg tape (readR1Response 0xFF) i).value = 0x01
  · rw [if_pos h] at hv
    exact Bool.noConfusion hv
  · refine ⟨[.cs false], [0x40, 0, 0, 0, 0, 0x95, 0xFF] ++ (playProg tape (readR1Response 0xFF) i).events, ?_, ?_⟩
    · rw [List.length_append]
      exact Nat.le_add_right_of_le (by decide)
    · rw [if_neg h, List.map_append]
      exact congrArg _ (congrArg _ (List.append_nil _))

end

/-! ## Answers of the card -/

/-- The R1 answer polled from place `p` on is `b`, and `q` is the place behind it: the first byte
    other than 0xFF among 255, or the last of them. -/
def R1At (tape : Nat → UInt8) (p : Nat) (b : UInt8) (q : Nat) : Prop :=
  ∃ j < 255, (∀ m < j, tape (p + m) = 0xFF) ∧ (tape (p + j) ≠ 0xFF ∨ j + 1 = 255) ∧ tape (p + j) = b ∧ p + j + 1 = q

/-- Within `n` rounds from place `p` on the card leaves the idle state, and `q` is the place behind. -/
inductive Ready (tape : Nat → UInt8) : Nat → Nat → Nat → Prop
  | now {n p p1 q : Nat} : R1At tape p 0x01 p1 → R1At tape p1 0x00 q → Ready tape (n + 1) p q
  | later {n p p1 p2 q : Nat} {b : UInt8} : R1At tape p 0x01 p1 → R1At tape p1 b p2 → b ≠ 0x00 →
      Ready tape n p2 q → Ready tape (n + 1) p q

/-- From place `p` on the tape is a card of the second version, which becomes ready in time and has
    a high capacity. -/
def Initialises (tape : Nat → UInt8) (p : Nat) : Prop :=
  ∃ p0 p8 p41 p58, R1At tape p 0x01 p0 ∧ R1At tape p0 0x01 p8 ∧ tape (p8 + 2) = 0x01 ∧ tape (p8 + 3) = 0xAA ∧
    Ready tape 5000 (p8 + 4) p41 ∧ R1At tape p41 0x00 p58 ∧ tape p58 &&& 0x40 ≠ 0

section
variable {p q : Nat} {b : UInt8}

theorem R1At.unique {q' : Nat} {b' : UInt8} (h : R1At tape p b q) (h' : R1At tape p b' q') : b = b' ∧ q = q' := by
  obtain ⟨j, hj, hff, hstop, rfl, rfl⟩ := h
  obtain ⟨j', hj', hff', hstop', rfl, rfl⟩ := h'
  have hle : ∀ {j j' : Nat}, j' < 255 → (∀ m < j', tape (p + m) = 0xFF) →
      (tape (p + j) ≠ 0xFF ∨ j + 1 = 255) → j' ≤ j := by
    intro j j' hj' hff' hstop
    by_contra hlt
    rcases hstop with h | h
    · exact h (hff' j (by omega))
    · omega
  obtain rfl : j = j' := Nat.le_antisymm (hle hj hff hstop') (hle hj' hff' hstop)
  exact ⟨rfl, rfl⟩

/-- The two loops differ only in what they return. -/
theorem readR1Response_eq (t : Nat) : readR1Response t = readToken t >>= fun r => .done r.1 := by
  induction t with
  | zero => rfl
  | succ t ih =>
    simp only [readR1Response, readToken, spiReadByte, spiSendByte, Prog.receive_bind, Prog.send_bind, Prog.pop_bind,
      Prog.push_bind]
    refine congrArg Prog.pop (funext fun b => congrArg (Prog.push 0xFF) ?_)
    by_cases h : b = 0xFF ∧ 0 < t
    · rw [if_pos h, if_pos h, ih]
    · rw [if_neg h, if_neg h]
      rfl

/-- What a program returns and where it stops on the tape. -/
def outcome {α : Type} (tape : Nat → UInt8) (prog : SpiProg α) (p : Nat) : α × Nat :=
  ((playProg tape prog p).value, (playProg tape prog p).place)

theorem outcome_done {α : Type} (a : α) : outcome tape (.done a) p = (a, p) := rfl

theorem outcome_bind {α β : Type} (prog : SpiProg α) (k : α → SpiProg β) :
    outcome tape (prog >>= k) p = outcome tape (k (outcome tape prog p).1) (outcome tape prog p).2 := by
  unfold outcome
  rw [playProg_bind]

theorem outcome_command (command : UInt8) (args : UInt32) (crc : UInt8) :
    outcome tape (Sd.sdSendCommand command args crc) p = ((), p) := rfl

theorem outcome_deassertCS : outcome tape Sd.deassertCS p = ((), p) := rfl

theorem outcome_readBytes :
    outcome tape (readBytes 4) p = ([tape p, tape (p + 1), tape (p + 2), tape (p + 3)], p + 4) := rfl

theorem r1At_play (tape : Nat → UInt8) (p : Nat) :
    R1At tape p (outcome tape (readR1Response 0xFF) p).1 (outcome tape (readR1Response 0xFF) p).2 := by
  have hstops := @readToken_stops tape 255 p (by decide)
  obtain ⟨j, hj, hff, hstop, hv, hp, -⟩ := hstops
  rw [show (0xFF : Nat) = 255 from rfl, readR1Response_eq, outcome_bind]
  exact ⟨j, hj, hff, hstop, (congrArg Prod.fst hv).symm, hp.symm⟩

theorem r1At_iff : R1At tape p b q ↔ outcome tape (readR1Response 0xFF) p = (b, q) := by
  constructor
  · intro h
    obtain ⟨hb, hq⟩ := (r1At_play tape p).unique h
    exact Prod.ext hb hq
  · intro h
    have hp := r1At_play tape p
    rwa [h] at hp

theorem outcome_acmd41 (n : Nat) : outcome tape (Sd.acmd41 (n + 1)) p =
    let r := outcome tape (readR1Response 0xFF) p
    let r' := outcome tape (readR1Response 0xFF) r.2
    if r.1 ≠ 0x01 then (false, r.2) else if r'.1 = 0x00 then (true, r'.2) else outcome tape (Sd.acmd41 n) r'.2 := by
  rw [Sd.acmd41]
  simp only [outcome_bind, outcome_command, outcome_deassertCS]
  by_cases h : (outcome tape (readR1Response 0xFF) p).1 ≠ 0x01
  · rw [if_pos h, if_pos h]
    rfl
  · rw [if_neg h, if_neg h]
    simp only [outcome_bind, outcome_command, outcome_deassertCS]
    by_cases h' : (outcome tape (readR1Response 0xFF) (outcome tape (readR1Response 0xFF) p).2).1 = 0x00
    · rw [if_pos h', if_pos h']
      rfl
    · rw [if_neg h', if_neg h']

theorem ready_iff (n : Nat) : ∀ p q : Nat, Ready tape n p q ↔ outcome tape (Sd.acmd41 n) p = (true, q) := by
  induction n with
  | zero =>
    intro p q
    constructor
    · intro h
      cases h
    · intro h
      exact Bool.noConfusion (congrArg Prod.fst h)
  | succ n ih =>
    intro p q
    rw [outcome_acmd41]
    constructor
    · intro h
      cases h with
      | now h1 h0 => simp [r1At_iff.mp h1, r1At_iff.mp h0]
      | later h1 hb hne hr => simpa [r1At_iff.mp h1, r1At_iff.mp hb, hne] using (ih _ _).mp hr
    · generalize hr : outcome tape (readR1Response 0xFF) p = r
      obtain ⟨b1, p1⟩ := r
      dsimp only
      generalize hr' : outcome tape (readR1Response 0xFF) p1 = r'
      obtain ⟨b, p2⟩ := r'
      intro h
      by_cases h1 : b1 = 0x01
      · subst h1
        by_cases h0 : b = 0x00
        · subst h0
          obtain rfl : p2 = q := by simpa using h
          exact .now (r1At_iff.mpr hr) (r1At_iff.mpr hr')
        · refine .later (r1At_iff.mpr hr) (r1At_iff.mpr hr') h0 ((ih _ _).mpr ?_)
          simpa [h0] using h
      · simp [h1] at h

theorem readOcr_iff : (outcome tape Sd.readOcr p).1 = true ↔ ∃ q, R1At tape p 0x00 q ∧ tape q &&& 0x40 ≠ 0 := by
  rw [Sd.readOcr]
  simp only [outcome_bind, outcome_command]
  generalize hr : outcome tape (readR1Response 0xFF) p = r
  obtain ⟨b, q⟩ := r
  dsimp only
  have hq : ∀ q', R1At tape p 0x00 q' ↔ b = 0x00 ∧ q = q' := by
    intro q'
    rw [r1At_iff, hr, Prod.mk.injEq]
  simp only [hq]
  by_cases hb : b = 0x00
  · simp only [hb, if_true, outcome_bind, outcome_readBytes]
    by_cases ho : tape q &&& 0x40 = 0
    · simp [ho, outcome_bind, outcome_deassertCS, outcome_done]
    · simp [ho, outcome_done]
  · simp [hb, outcome_bind, outcome_deassertCS, outcome_done]

theorem sdInit_iff : (outcome tape Sd.sdInit p).1 = true ↔ Initialises tape p := by
  have hclocks : ∀ p, outcome tape (sendBytes (List.replicate 10 0xFF)) p = ((), p) := fun _ => rfl
  rw [Sd.sdInit]
  simp only [outcome_bind, hclocks, outcome_command]
  constructor
  · generalize hr0 : outcome tape (readR1Response 0xFF) p = r0
    obtain ⟨b0, p0⟩ := r0
    intro h
    by_cases h0 : b0 = 0x01
    · subst h0
      simp only [ne_eq, not_true_eq_false, if_false, outcome_bind, outcome_command] at h
      generalize hr8 : outcome tape (readR1Response 0xFF) p0 = r8 at h
      obtain ⟨b8, p8⟩ := r8
      by_cases h8 : b8 = 0x01
      · subst h8
        simp only [if_true, outcome_bind, outcome_readBytes, outcome_deassertCS, List.getD_cons_succ,
          List.getD_cons_zero] at h
        by_cases hecho : tape (p8 + 2) = 0x01 ∧ tape (p8 + 3) = 0xAA
        · rw [if_pos hecho, outcome_bind] at h
          generalize hr41 : outcome tape (Sd.acmd41 5000) (p8 + 4) = r41 at h
          obtain ⟨ready, p41⟩ := r41
          cases ready with
          | false => simp [outcome_done] at h
          | true =>
            obtain ⟨p58, h58, hocr⟩ := readOcr_iff.mp h
            have h41 : Ready tape 5000 (p8 + 4) p41 := (ready_iff _ _ _).mpr hr41
            exact ⟨p0, p8, p41, p58, r1At_iff.mpr hr0, r1At_iff.mpr hr8, hecho.1, hecho.2, h41, h58, hocr⟩
        · simp [hecho, outcome_done] at h
      · simp [h8, outcome_bind, outcome_done] at h
    · simp [h0, outcome_bind, outcome_done] at h
  · rintro ⟨p0, p8, p41, p58, h0, h8, h2, h3, h41, h58, hocr⟩
    have hgo : (outcome tape Sd.readOcr p41).1 = true := readOcr_iff.mpr ⟨p58, h58, hocr⟩
    simpa [r1At_iff.mp h0, outcome_bind, outcome_command, r1At_iff.mp h8, outcome_readBytes, outcome_deassertCS,
      h2, h3, (ready_iff _ _ _).mp h41] using hgo

theorem sdShutdown_iff : (outcome tape Sd.sdShutdown p).1 = true ↔ ∃ q, R1At tape p 0x01 q := by
  simp only [Sd.sdShutdown, outcome_bind, outcome_command, r1At_iff]
  generalize outcome tape (readR1Response 0xFF) p = r
  obtain ⟨b, q⟩ := r
  by_cases h : b = 0x01
  · simp [h, outcome_bind, outcome_done]
  · simp [h, outcome_done]

end

/-! ## The card is released -/

theorem play_flag (p : BusProg Bool) (i : Nat) :
    ((p >>= fun ok => pure (ok, ([] : List UInt8))).play tape i).events = (p.play tape i).events := by
  rw [play_bind]
  exact List.append_nil _

/-- A program that releases the card with one value and holds it with the other. -/
theorem released_iff_value {v : Bool} {p : BusProg Bool} (hr : Releases tape (· = v) p)
    (hh : Holds tape (· = !v) p) (i : Nat) : Released (p.play tape i).events ↔ (p.play tape i).value = v := by
  constructor
  · intro h
    by_contra hv
    obtain ⟨before, l, hl, he⟩ := hh i (Bool.eq_not_of_ne hv)
    rw [he] at h
    exact not_released_bytes before hl h
  · exact hr i

/-- The operation leaves the card released, but for SDInit on a card that it initialises and SDShutdown
    on a card that does not go to the idle state. -/
theorem released_iff (tape : Nat → UInt8) (i : Nat) (op : Op) : Released (op.prog.play tape i).events ↔
    (op = .init → ¬ Initialises tape i) ∧ (op = .shutdown → ∃ q, R1At tape i 0x01 q) := by
  cases op with
  | init =>
    have hvalue : (sdInit.play tape i).value = (outcome tape Sd.sdInit i).1 := by
      rw [← erase_sdInit, outcome, play_erase]
    rw [Op.prog, play_flag, released_iff_value releases_sdInit holds_sdInit, hvalue, ← Bool.not_eq_true, sdInit_iff]
    simp
  | readBlock a => simpa [Op.prog] using (releases_sdReadBlock (Q := fun _ => True) a) i trivial
  | readPartialBlock a offset length =>
    simpa [Op.prog] using (releases_sdReadPartialBlock (Q := fun _ => True) a offset length) i trivial
  | writeBlock a data =>
    rw [Op.prog, play_flag]
    simpa using (releases_sdWriteBlock (P := fun _ => True) a data) i trivial
  | shutdown =>
    have hvalue : (sdShutdown.play tape i).value = (outcome tape Sd.sdShutdown i).1 := by
      rw [← erase_sdShutdown, outcome, play_erase]
    rw [Op.prog, play_flag, released_iff_value releases_sdShutdown holds_sdShutdown, hvalue, sdShutdown_iff]
    simp

/-- A card that initialises: the answers of CMD0, CMD8, CMD55, ACMD41 and CMD58. -/
def readyCard : Nat → UInt8 := fun i =>
  [0x01, 0x01, 0x00, 0x00, 0x01, 0xAA, 0x01, 0x00, 0x00, 0xC0, 0xFF, 0x80, 0x00].getD i 0xFF

/-- SDInit leaves that card selected, and SDShutdown one that does not answer. -/
theorem init_not_released : ¬ Released ((Op.prog .init).play readyCard 0).events ∧
    ¬ Released ((Op.prog .shutdown).play (fun _ => 0xFF) 0).events := by
  constructor
  · have hv : (sdInit.play readyCard 0).value = true := by decide +kernel
    rw [Op.prog, play_flag, released_iff_value releases_sdInit holds_sdInit, hv]
    exact Bool.true_eq_false.mp
  · have hv : (sdShutdown.play (fun _ => 0xFF) 0).value = false := by decide +kernel
    rw [Op.prog, play_flag, released_iff_value releases_sdShutdown holds_sdShutdown, hv]
    exact Bool.false_ne_true

end OpenGpos.Sd.Select
