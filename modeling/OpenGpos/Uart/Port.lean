/-
  OpenGpos.Uart.Port — driver/uart/uart.c beside the UART itself. The transmitter takes bytes off its
  queue and the receiver adds bytes to its own at any moment; both queues hold 32 bytes. A byte stored
  while the transmit queue is full is lost, one received while the receive queue is full too, and a
  load from an empty receive queue brings a stale byte. The driver polls the flags in front of each
  access, so none of this happens to it: what it stores goes out in order (`sendAll_in_order`), and it
  loads what was received in order (`uartRxStr_line`).
-/
import OpenGpos.Lib.Mmio
import OpenGpos.Libc.Strings
import OpenGpos.Util.HexUtils

namespace OpenGpos.Uart

open OpenGpos.Lib.Bytes OpenGpos.Lib.Mmio OpenGpos.Libc.Strings OpenGpos.Util

/-! ## The UART -/

inductive Reg where
  | FR
  | DR
  deriving DecidableEq

def fifoDepth : Nat := 32

structure Port where
  tx : List UInt8
  rx : List UInt8
  /-- What has gone out. -/
  line : List UInt8
  /-- What came in and found room. -/
  accepted : List UInt8

/-- TXFE, RXFF, TXFF and RXFE. -/
def Port.flags (s : Port) : UInt32 :=
  (if s.tx.length = 0 then (1 : UInt32) <<< 7 else 0) |||
      (if s.rx.length = fifoDepth then (1 : UInt32) <<< 6 else 0) |||
    (if fifoDepth ≤ s.tx.length then (1 : UInt32) <<< 5 else 0) ||| (if s.rx.length = 0 then (1 : UInt32) <<< 4 else 0)

inductive Port.Move : Port → Port → Prop
  | transmit {b : UInt8} {tx rx line accepted : List UInt8} :
      Move ⟨b :: tx, rx, line, accepted⟩ ⟨tx, rx, line ++ [b], accepted⟩
  | receive {s : Port} (b : UInt8) : s.rx.length < fifoDepth →
      Move s { s with rx := s.rx ++ [b], accepted := s.accepted ++ [b] }
  | overrun {s : Port} : fifoDepth ≤ s.rx.length → Move s s

def uart (stale : UInt32) : Device Reg UInt32 Port where
  load s
    | .FR => (s.flags, s)
    | .DR =>
      match s.rx with
      | [] => (stale, s)
      | b :: rx => (b.toUInt32, { s with rx })
  store s
    | .FR, _ => s
    | .DR, v => if s.tx.length < fifoDepth then { s with tx := s.tx ++ [v.toUInt8] } else s
  move := Port.Move

abbrev UartProg (α : Type) := Prog Reg UInt32 α

/-! ## The driver -/

def notFull (fr : UInt32) : Bool := fr &&& ((1 : UInt32) <<< 5) == 0

def notEmpty (fr : UInt32) : Bool := fr &&& ((1 : UInt32) <<< 4) == 0

def uartTx (x : UInt8) : UartProg Unit := do
  .wait .FR notFull
  .write .DR x.toUInt32

def uartPuts (mem : Mem) (str : UInt32) : Nat → UartProg Unit
  | 0 => pure ()
  | len + 1 => do
    uartTx (mem str.toNat)
    uartPuts mem (str + 1) len

/-- `uartTxStr(x + i)`, for a string that ends within `n` bytes. -/
def uartTxStr (x : Mem) : Nat → Nat → UartProg Unit
  | _, 0 => pure ()
  | i, n + 1 =>
    if x i ≠ 0 then do
      uartTx (x i)
      uartTxStr x (i + 1) n
    else pure ()

def uartRx : UartProg UInt8 := do
  .wait .FR notEmpty
  let dr ← .read .DR
  pure dr.toUInt8

/-- `uartRxStr` from its `i`-th character on; `none` where the fuel ends before a carriage return comes. -/
def uartRxLoop : Nat → Mem → Nat → UartProg (Option Mem)
  | 0, _, _ => pure none
  | fuel + 1, str, i => do
    let dat ← uartRx
    let str := store8 str i dat
    if dat ≠ 0x0D then uartRxLoop fuel str (i + 1) else pure (some (store8 str i 0))

def uartRxStr (fuel : Nat) (str : Mem) : UartProg (Option Mem) := uartRxLoop fuel str 0

/-! The local buffers hold anything at first. -/

def uartTxHexByte (hex : Mem) (byte : UInt8) : UartProg Unit := uartTxStr (byteToStr hex byte) 0 3

def uartTxDecByte (dec : Mem) (byte : UInt8) : UartProg Unit := uartTxStr (byteToDec dec byte) 0 4

def uartTxHex (hex : Mem) (n : UInt32) : UartProg Unit := uartTxStr (hexToStr hex n) 0 9

def uartTxDec (dec tempStr : Mem) (n : UInt32) : UartProg Unit := uartTxStr (intToDec dec tempStr n) 0 11

/-! ## The flags -/

theorem flags_bits (a b c e : Bool) :
    let flags : UInt32 := (if a then (1 : UInt32) <<< 7 else 0) ||| (if b then (1 : UInt32) <<< 6 else 0) |||
      (if c then (1 : UInt32) <<< 5 else 0) |||
      (if e then (1 : UInt32) <<< 4 else 0)
    notFull flags = !c ∧ notEmpty flags = !e := by
  cases a <;> cases b <;> cases c <;> cases e <;> decide

theorem notFull_flags (s : Port) : notFull s.flags = true ↔ s.tx.length < fifoDepth := by
  have h := (flags_bits (decide (s.tx.length = 0)) (decide (s.rx.length = fifoDepth)) (decide (fifoDepth ≤ s.tx.length))
    (decide (s.rx.length = 0))).1
  simp only [decide_eq_true_eq] at h
  rw [Port.flags, h]
  simp

theorem notEmpty_flags (s : Port) : notEmpty s.flags = true ↔ s.rx ≠ [] := by
  have h := (flags_bits (decide (s.tx.length = 0)) (decide (s.rx.length = fifoDepth)) (decide (fifoDepth ≤ s.tx.length))
    (decide (s.rx.length = 0))).2
  simp only [decide_eq_true_eq] at h
  rw [Port.flags, h]
  simp

/-! ## Sending -/

def sendAll : List UInt8 → UartProg Unit
  | [] => pure ()
  | b :: bs => do
    uartTx b
    sendAll bs

theorem sendAll_append (l m : List UInt8) : sendAll (l ++ m) = sendAll l >>= fun _ => sendAll m := by
  induction l with
  | nil => rfl
  | cons b l ih =>
    show uartTx b >>= (fun _ => sendAll (l ++ m)) = _
    rw [ih]
    exact (Prog.bind_assoc ..).symm

theorem uartTxStr_eq (x : Mem) (n : Nat) : ∀ i, uartTxStr x i n = sendAll (cstring x i n) := by
  induction n with
  | zero => exact fun _ => rfl
  | succ n ih =>
    intro i
    rw [uartTxStr, cstring]
    by_cases h0 : x i = 0
    · rw [if_neg (not_not.mpr h0), if_pos h0]
      rfl
    · rw [if_pos h0, if_neg h0, ih]
      rfl

section
variable {stale : UInt32}

/-- All that was stored is on the line or in the queue. -/
def Port.out (s : Port) : List UInt8 := s.line ++ s.tx

/-- The first `k` bytes of `text` are out, behind `before`. -/
def Sent (before text : List UInt8) (k : Nat) (s : Port) : Prop :=
  s.tx.length ≤ fifoDepth ∧ s.out = before ++ text.take k

/-- A part of `text` is out. -/
def Sending (before text : List UInt8) (s : Port) : Prop := ∃ k, Sent before text k s

theorem stable_sent (before text : List UInt8) (k : Nat) : Stable (uart stale) (Sent before text k) := by
  intro s s' h hm
  obtain ⟨hl, ho⟩ := h
  cases hm with
  | @transmit b tx rx line accepted =>
    rw [List.length_cons] at hl
    refine ⟨Nat.le_of_succ_le hl, ?_⟩
    rw [← ho]
    show line ++ [b] ++ tx = line ++ b :: tx
    rw [List.append_assoc]
    rfl
  | receive b _ => exact ⟨hl, ho⟩
  | overrun _ => exact ⟨hl, ho⟩

theorem Sent.store {before text : List UInt8} {k : Nat} {b : UInt8} {s : Port} (h : Sent before text k s)
    (hb : text[k]? = some b) (hl : s.tx.length < fifoDepth) :
    Sent before text (k + 1) ((uart stale).store s .DR b.toUInt32) := by
  have hs : (uart stale).store s .DR b.toUInt32 = { s with tx := s.tx ++ [b] } := by
    show (if s.tx.length < fifoDepth then _ else _) = _
    rw [if_pos hl]
    simp
  rw [hs]
  refine ⟨?_, ?_⟩
  · show (s.tx ++ [b]).length ≤ _
    rw [List.length_append]
    exact hl
  · show s.line ++ (s.tx ++ [b]) = _
    rw [← List.append_assoc, List.take_add_one, hb, ← List.append_assoc, ← h.2]
    rfl

theorem stable_room : Stable (uart stale) fun s => s.tx.length < fifoDepth := by
  intro s s' h hm
  cases hm with
  | transmit => exact Nat.lt_of_succ_lt h
  | receive b _ => exact h
  | overrun _ => exact h

theorem triple_uartTx {before text : List UInt8} {k : Nat} {b : UInt8} (hb : text[k]? = some b) :
    Triple (uart stale) (Sending before text) (Sent before text k) (uartTx b) fun _ => Sent before text (k + 1) := by
  refine .await (fun s => Sent before text k s ∧ s.tx.length < fifoDepth) (stable_sent before text k)
      (fun s h => ⟨k, h⟩)
    (fun s h _ => h) (fun s h hc => ⟨h, (notFull_flags s).mp hc⟩) ?_
  refine .store (Sent before text (k + 1)) ((stable_sent before text k).and (stable_room)) (fun s h => ⟨k, h.1⟩)
    (fun s h => h.1.store hb h.2) ?_
  exact .done (stable_sent before text (k + 1)) (fun s h => ⟨k + 1, h⟩) fun s h => h

theorem triple_sendAll (before text : List UInt8) (rest : List UInt8) : ∀ k, text.drop k = rest →
    Triple (uart stale) (Sending before text) (Sent before text k) (sendAll rest) fun _ =>
      Sent before text text.length := by
  induction rest with
  | nil =>
    intro k hk
    refine .done (stable_sent before text k) (fun s h => ⟨k, h⟩) fun s h => ?_
    have hle : text.length ≤ k := List.drop_eq_nil_iff.mp hk
    refine ⟨h.1, ?_⟩
    rw [h.2, List.take_of_length_le hle, List.take_length]
  | cons b rest ih =>
    intro k hk
    have hb : text[k]? = some b := by rw [← List.head?_drop, hk]; rfl
    refine (triple_uartTx hb).bind fun _ => ih (k + 1) ?_
    rw [← List.drop_drop, hk]
    rfl

/-! ## Sending comes to an end -/

/-- Programs that only wait for room and store. -/
inductive TxOnly {α : Type} : UartProg α → Prop
  | done {a : α} : TxOnly (.done a)
  | wait {k : UartProg α} : TxOnly k → TxOnly (.await .FR notFull k)
  | write {v : UInt32} {k : UartProg α} : TxOnly k → TxOnly (.store .DR v k)

theorem txOnly_sendAll {α : Type} (a : α) (l : List UInt8) : TxOnly (sendAll l >>= fun _ => .done a) := by
  induction l with
  | nil => exact .done
  | cons b l ih => exact .wait (.write ih)

theorem TxOnly.step {α : Type} {c c' : Config Reg UInt32 Port α} (h : TxOnly c.prog) (hs : Step (uart stale) c c') :
    TxOnly c'.prog := by
  cases hs with
  | load => cases h
  | store =>
    cases h with
    | write hk => exact hk
  | leave _ =>
    cases h with
    | wait hk => exact hk
  | again _ => exact h
  | move _ => exact h

/-- The transmitter empties its queue. -/
theorem steps_transmit {α : Type} (p : UartProg α) (tx : List UInt8) : ∀ (rx line accepted : List UInt8),
    Steps (uart stale) ⟨p, ⟨tx, rx, line, accepted⟩⟩ ⟨p, ⟨[], rx, line ++ tx, accepted⟩⟩ := by
  induction tx with
  | nil =>
    intro rx line accepted
    rw [List.append_nil]
    exact .refl
  | cons b tx ih =>
    intro rx line accepted
    have h := ih rx (line ++ [b]) accepted
    rw [List.append_assoc] at h
    exact .head (.move .transmit) h

theorem TxOnly.ends {α : Type} {p : UartProg α} (h : TxOnly p) : ∀ s : Port,
    ∃ a s', Steps (uart stale) ⟨p, s⟩ ⟨.done a, s'⟩ := by
  induction h with
  | @done a => exact fun s => ⟨a, s, .refl⟩
  | @wait k _ ih =>
    intro s
    obtain ⟨a, s', hs⟩ := ih ⟨[], s.rx, s.line ++ s.tx, s.accepted⟩
    refine ⟨a, s', (steps_transmit _ s.tx s.rx s.line s.accepted).trans (.head (.leave ?_) hs)⟩
    exact (notFull_flags ⟨[], s.rx, s.line ++ s.tx, s.accepted⟩).mpr (show 0 < fifoDepth by decide)
  | @write v k _ ih =>
    intro s
    obtain ⟨a, s', hs⟩ := ih ((uart stale).store s .DR v)
    exact ⟨a, s', .head .store hs⟩

/-- Whenever the transmitter takes what, the bytes go out in order, none is lost, and the sending
    can always come to its end. -/
theorem sendAll_in_order {α : Type} (text : List UInt8) (a : α) {s : Port} (hs : s.tx.length ≤ fifoDepth)
    {c : Config Reg UInt32 Port α} (h : Steps (uart stale) ⟨sendAll text >>= fun _ => .done a, s⟩ c) :
    Sending s.out text c.state ∧ (∀ b, c.prog = .done b → b = a ∧ Sent s.out text text.length c.state) ∧
      ∃ b c', Steps (uart stale) c c' ∧ c'.prog = .done b := by
  have htriple : Triple (uart stale) (Sending s.out text) (Sent s.out text 0) (sendAll text >>= fun _ => .done a)
      fun b s' => b = a ∧ Sent s.out text text.length s' :=
    (triple_sendAll s.out text text 0 rfl).bind fun _ => .done (stable_sent s.out text text.length) (fun s h => ⟨_,
    h⟩) fun s h => ⟨rfl, h⟩
  have hsound := htriple.sound ⟨hs, (List.append_nil s.out).symm⟩ h
  have htx : TxOnly c.prog := by
    clear hsound
    induction h with
    | refl => exact txOnly_sendAll a text
    | tail _ hs ih => exact ih.step hs
  obtain ⟨b, s', hend⟩ := htx.ends c.state
  exact ⟨hsound.1, hsound.2, b, _, hend, rfl⟩

/-! ## Receiving -/

/-- Of what was accepted, `got` was taken from the queue. -/
def Taken (got : List UInt8) (s : Port) : Prop := s.accepted = got ++ s.rx

/-- What is in the queue came last. -/
def InOrder (s : Port) : Prop := ∃ got, Taken got s

theorem stable_taken (got : List UInt8) : Stable (uart stale) (Taken got) := by
  intro s s' h hm
  cases hm with
  | transmit => exact h
  | receive b _ =>
    show s.accepted ++ [b] = got ++ (s.rx ++ [b])
    rw [show s.accepted = got ++ s.rx from h, List.append_assoc]
  | overrun _ => exact h

theorem Taken.load {got : List UInt8} {s : Port} (h : Taken got s) (hr : s.rx ≠ []) :
    Taken (got ++ [((uart stale).load s .DR).1.toUInt8]) ((uart stale).load s .DR).2 := by
  obtain ⟨tx, rx, line, accepted⟩ := s
  cases rx with
  | nil => exact absurd rfl hr
  | cons b rx =>
    show accepted = got ++ [b.toUInt32.toUInt8] ++ rx
    rw [show accepted = got ++ b :: rx from h, List.append_assoc]
    simp

/-- The buffer with some characters written. -/
def filled (str : Mem) (got : List UInt8) : Mem := fun i => if i < got.length then got.getD i 0 else str i

theorem filled_snoc (str : Mem) (got : List UInt8) (b : UInt8) :
    store8 (filled str got) got.length b = filled str (got ++ [b]) := by
  funext i
  unfold store8 filled
  rw [List.length_append, List.length_singleton, List.getD_eq_getElem?_getD, List.getD_eq_getElem?_getD]
  by_cases hi : i = got.length
  · subst hi
    rw [if_pos rfl, if_pos (Nat.lt_succ_self _), List.getElem?_concat_length]
    rfl
  · rw [if_neg hi]
    by_cases hl : i < got.length
    · rw [if_pos hl, if_pos (by omega), List.getElem?_append_left hl]
    · rw [if_neg hl, if_neg (by omega)]

theorem filled_nul (str : Mem) (got : List UInt8) (b : UInt8) :
    store8 (store8 (filled str got) got.length b) got.length 0 = putStr str got := by
  rw [store8_store8]
  funext i
  unfold store8 filled putStr
  by_cases hi : i = got.length
  · subst hi
    rw [if_pos rfl, if_neg (Nat.lt_irrefl _), if_pos rfl]
  · rw [if_neg hi, if_neg hi]

/-- What `uartRxStr` makes of what came in behind `before`: the line up to its carriage return, or,
    with too little fuel, nothing. -/
def LineRead (before : List UInt8) (str : Mem) (fuel : Nat) : Option Mem → Port → Prop
  | some buf, s => ∃ line, 0x0D ∉ line ∧ Taken (before ++ line ++ [0x0D]) s ∧ buf = putStr str line
  | none, s => ∃ line, line.length = fuel ∧ 0x0D ∉ line ∧ Taken (before ++ line) s

/-- What the loop does with a byte. -/
def rxByte (fuel : Nat) (str : Mem) (i : Nat) (dat : UInt8) : UartProg (Option Mem) :=
  if dat ≠ 0x0D then uartRxLoop fuel (store8 str i dat) (i + 1) else pure (some (store8 (store8 str i dat) i 0))

theorem uartRxLoop_succ (fuel : Nat) (str : Mem) (i : Nat) : uartRxLoop (fuel + 1) str i =
    .await .FR notEmpty (.load .DR fun dr => rxByte fuel str i dr.toUInt8) := rfl

/-- Where the call can be: in front of a poll or of a load, with `got` taken so far, or at its end. -/
inductive InLine (before : List UInt8) (str : Mem) (fuel : Nat) : UartProg (Option Mem) → Port → Prop
  | poll {got : List UInt8} {n : Nat} {s : Port} : 0x0D ∉ got → got.length + n = fuel → Taken (before ++ got) s →
      InLine before str fuel (uartRxLoop n (filled str got) got.length) s
  | load {got : List UInt8} {n : Nat} {s : Port} : 0x0D ∉ got → got.length + (n + 1) = fuel → Taken (before ++ got) s →
      s.rx ≠ [] → InLine before str fuel (.load .DR fun dr => rxByte n (filled str got) got.length dr.toUInt8) s
  | read {line : List UInt8} {s : Port} : 0x0D ∉ line → Taken (before ++ line ++ [0x0D]) s →
      InLine before str fuel (.done (some (putStr str line))) s

section
variable {before : List UInt8} {str : Mem} {fuel : Nat}

theorem InLine.inOrder {p : UartProg (Option Mem)} {s : Port} (h : InLine before str fuel p s) : InOrder s := by
  cases h with
  | poll _ _ ht => exact ⟨_, ht⟩
  | load _ _ ht _ => exact ⟨_, ht⟩
  | read _ ht => exact ⟨_, ht⟩

theorem InLine.lineRead {r : Option Mem} {s : Port} (h : InLine before str fuel (.done r) s) :
    LineRead before str fuel r s := by
  generalize hp : (Prog.done r : UartProg (Option Mem)) = p at h
  cases h with
  | @poll got n _ hcr hn ht =>
    cases n with
    | zero =>
      cases hp
      exact ⟨got, hn, hcr, ht⟩
    | succ n => cases hp
  | load => cases hp
  | read hcr ht =>
    cases hp
    exact ⟨_, hcr, ht, rfl⟩

theorem InLine.move {p : UartProg (Option Mem)} {s s' : Port} (h : InLine before str fuel p s)
    (hm : (uart stale).move s s') :
    InLine before str fuel p s' := by
  cases h with
  | poll hcr hn ht => exact .poll hcr hn (stable_taken _ _ _ ht hm)
  | load hcr hn ht hr =>
    refine .load hcr hn (stable_taken _ _ _ ht hm) ?_
    cases hm with
    | transmit => exact hr
    | receive b _ => exact List.append_ne_nil_of_left_ne_nil hr [b]
    | overrun _ => exact hr
  | read hcr ht => exact .read hcr (stable_taken _ _ _ ht hm)

/-- The byte that was loaded goes into the buffer, or ends the call. -/
theorem InLine.byte {got : List UInt8} {n : Nat} {b : UInt8} {s : Port} (hcr : 0x0D ∉ got)
    (hn : got.length + (n + 1) = fuel)
    (ht : Taken (before ++ got ++ [b]) s) : InLine before str fuel (rxByte n (filled str got) got.length b) s := by
  unfold rxByte
  by_cases hb : b = 0x0D
  · rw [if_neg (not_not.mpr hb), filled_nul]
    rw [hb] at ht
    exact .read hcr ht
  · have hcr' : 0x0D ∉ got ++ [b] := by
      rw [List.mem_append, List.mem_singleton]
      exact fun h => h.elim hcr fun h => hb h.symm
    rw [List.append_assoc] at ht
    rw [if_pos hb, filled_snoc]
    have h : InLine before str fuel (uartRxLoop n (filled str (got ++ [b])) (got ++ [b]).length) s :=
      .poll hcr' (by simp; omega) ht
    rw [List.length_append] at h
    exact h

theorem InLine.step {c c' : Config Reg UInt32 Port (Option Mem)} (h : InLine before str fuel c.prog c.state)
    (hs : Step (uart stale) c c') : InLine before str fuel c'.prog c'.state := by
  obtain ⟨p, s⟩ := c
  cases h with
  | @poll got n _ hcr hn ht =>
    cases n with
    | zero =>
      cases hs with
      | move hm => exact (InLine.poll hcr hn ht).move hm
    | succ n =>
      rw [uartRxLoop_succ] at hs
      cases hs with
      | leave hc => exact .load hcr hn ht ((notEmpty_flags s).mp hc)
      | again _ => exact .poll hcr hn ht
      | move hm => exact (InLine.poll hcr hn ht).move hm
  | load hcr hn ht hr =>
    cases hs with
    | load => exact .byte hcr hn (ht.load hr)
    | move hm => exact (InLine.load hcr hn ht hr).move hm
  | read hcr ht =>
    cases hs with
    | move hm => exact (InLine.read hcr ht).move hm

/-- A carriage return in the queue ends the call, though no byte comes any more. -/
theorem uartRxLoop_still (fuel : Nat) : ∀ (str : Mem) (i : Nat) (s : Port), 0x0D ∈ s.rx.take fuel →
    ∃ buf s', Steps (uart stale).still ⟨uartRxLoop fuel str i, s⟩ ⟨.done (some buf), s'⟩ := by
  induction fuel with
  | zero => exact fun str i s h => absurd h List.not_mem_nil
  | succ fuel ih =>
    intro str i s h
    obtain ⟨tx, rx, line, accepted⟩ := s
    cases rx with
    | nil => exact absurd h List.not_mem_nil
    | cons b rx =>
      have hready : notEmpty ((uart stale).load ⟨tx, b :: rx, line, accepted⟩ .FR).1 = true :=
        (notEmpty_flags _).mpr (List.cons_ne_nil _ _)
      have hturn : Steps (uart stale).still ⟨uartRxLoop (fuel + 1) str i, ⟨tx, b :: rx, line, accepted⟩⟩
          ⟨rxByte fuel str i b.toUInt32.toUInt8, ⟨tx, rx, line, accepted⟩⟩ := .head (.leave hready) (.single .load)
      rw [UInt8.toUInt8_toUInt32] at hturn
      unfold rxByte at hturn
      by_cases hb : b = 0x0D
      · rw [if_neg (not_not.mpr hb)] at hturn
        exact ⟨_, _, hturn⟩
      · rw [if_pos hb] at hturn
        have hmem : 0x0D ∈ rx.take fuel := (List.mem_cons.mp h).resolve_left fun h => hb h.symm
        obtain ⟨buf, s', hrest⟩ := ih (store8 str i b) (i + 1) ⟨tx, rx, line, accepted⟩ hmem
        exact ⟨buf, s', hturn.trans hrest⟩

theorem mem_rest {got rx : List UInt8} {n fuel : Nat} (h : 0x0D ∈ (got ++ rx).take fuel) (hcr : 0x0D ∉ got)
    (hn : got.length + n = fuel) : 0x0D ∈ rx.take n := by
  rw [List.take_append, List.mem_append, show fuel - got.length = n by omega] at h
  exact h.resolve_left fun h => hcr (List.mem_of_mem_take h)

theorem InLine.still {p : UartProg (Option Mem)} {s : Port} (h : InLine before str fuel p s) {new : List UInt8}
    (hnew : s.accepted = before ++ new) (hin : 0x0D ∈ new.take fuel) :
    ∃ buf s', Steps (uart stale).still ⟨p, s⟩ ⟨.done (some buf), s'⟩ := by
  have hrest : ∀ {got : List UInt8}, Taken (before ++ got) s → new = got ++ s.rx := by
    intro got ht
    have h := hnew.symm.trans ht
    rw [List.append_assoc] at h
    exact List.append_cancel_left h
  cases h with
  | poll hcr hn ht =>
    rw [hrest ht] at hin
    exact uartRxLoop_still _ _ _ s (mem_rest hin hcr hn)
  | @load got n _ hcr hn ht hr =>
    -- one load, and then as from the next poll
    rw [hrest ht] at hin
    have hmem := mem_rest hin hcr hn
    obtain ⟨buf, s', hs⟩ : ∃ buf s', Steps (uart stale).still ⟨uartRxLoop (n + 1) (filled str got) got.length, s⟩
        ⟨.done (some buf), s'⟩ := uartRxLoop_still _ _ _ s hmem
    rw [uartRxLoop_succ] at hs
    rcases Relation.ReflTransGen.cases_head hs with he | ⟨c1, h1, h2⟩
    · cases he
    · cases h1 with
      | leave _ => exact ⟨buf, s', h2⟩
      | again hc =>
        have hready := (notEmpty_flags s).mpr hr
        exact absurd hc (by rw [show ((uart stale).still.load s .FR).1 = s.flags from rfl, hready]; decide)
      | move hm => exact hm.elim
  | read _ _ => exact ⟨_, s, .refl⟩

end

/-- Programs that only wait for a byte and load it. -/
inductive RxOnly : UartProg (Option Mem) → Prop
  | done (r : Option Mem) : RxOnly (.done r)
  | wait {k : UartProg (Option Mem)} : RxOnly k → RxOnly (.await .FR notEmpty k)
  | read {k : UInt32 → UartProg (Option Mem)} : (∀ v, RxOnly (k v)) → RxOnly (.load .DR k)

theorem rxOnly_uartRxLoop (fuel : Nat) : ∀ (str : Mem) (i : Nat), RxOnly (uartRxLoop fuel str i) := by
  induction fuel with
  | zero => exact fun str i => .done none
  | succ fuel ih =>
    intro str i
    refine .wait (.read fun v => ?_)
    show RxOnly (if v.toUInt8 ≠ 0x0D then uartRxLoop fuel _ (i + 1) else .done _)
    split
    · exact ih _ _
    · exact .done _

theorem RxOnly.step {c c' : Config Reg UInt32 Port (Option Mem)} (h : RxOnly c.prog) (hs : Step (uart stale) c c') :
    RxOnly c'.prog := by
  cases hs with
  | load =>
    cases h with
    | read hk => exact hk _
  | store => cases h
  | leave _ =>
    cases h with
    | wait hk => exact hk
  | again _ => exact h
  | move _ => exact h

theorem RxOnly.ends {p : UartProg (Option Mem)} (h : RxOnly p) : ∀ s : Port,
    ∃ r s', Steps (uart stale) ⟨p, s⟩ ⟨.done r, s'⟩ := by
  induction h with
  | done r => exact fun s => ⟨r, s, .refl⟩
  | @wait k _ ih =>
    intro s
    by_cases hr : s.rx = []
    · -- a byte comes
      have hroom : s.rx.length < fifoDepth := by rw [hr]; decide
      obtain ⟨r, s', hs⟩ := ih { s with rx := s.rx ++ [0], accepted := s.accepted ++ [0] }
      refine ⟨r, s', .head (.move (.receive 0 hroom)) (.head (.leave ?_) hs)⟩
      exact (notEmpty_flags _).mpr (List.append_ne_nil_of_right_ne_nil _ (List.cons_ne_nil 0 []))
    · obtain ⟨r, s', hs⟩ := ih s
      exact ⟨r, s', .head (.leave ((notEmpty_flags s).mpr hr)) hs⟩
  | @read k _ ih =>
    intro s
    obtain ⟨r, s', hs⟩ := ih _ ((uart stale).load s .DR).2
    exact ⟨r, s', .head .load hs⟩

/-- Whenever bytes come in, `uartRxStr` stores those that found room, in order and up to the first
    carriage return, puts a NUL in its place and leaves the rest of the buffer and of the bytes
    alone. Once a carriage return has come in, it ends without another byte, and it can always end. -/
theorem uartRxStr_line (before : List UInt8) (fuel : Nat) (str : Mem) {s : Port} (hs : s.accepted = before ++ s.rx)
    {c : Config Reg UInt32 Port (Option Mem)} (h : Steps (uart stale) ⟨uartRxStr fuel str, s⟩ c) :
    InOrder c.state ∧ (∀ r, c.prog = .done r → LineRead before str fuel r c.state) ∧
      (∀ new, c.state.accepted = before ++ new → 0x0D ∈ new.take fuel →
        ∃ buf s', Steps (uart stale).still c ⟨.done (some buf), s'⟩) ∧
      ∃ r c', Steps (uart stale) c c' ∧ c'.prog = .done r := by
  have hstart : InLine before str fuel (uartRxLoop fuel (filled str []) ([] : List UInt8).length) s :=
    .poll List.not_mem_nil (Nat.zero_add _) (by rw [List.append_nil]; exact hs)
  have hc : InLine before str fuel c.prog c.state ∧ RxOnly c.prog := by
    induction h with
    | refl => exact ⟨hstart, rxOnly_uartRxLoop fuel str 0⟩
    | tail _ hs ih => exact ⟨ih.1.step hs, ih.2.step hs⟩
  obtain ⟨r, s', hend⟩ := hc.2.ends c.state
  refine ⟨hc.1.inOrder, fun r hr => ?_, fun new hnew hin => hc.1.still hnew hin, r, _, hend, rfl⟩
  have hline := hc.1
  rw [hr] at hline
  exact hline.lineRead

/-- Only what comes in changes what was accepted. -/
theorem accepted_still {c c' : Config Reg UInt32 Port (Option Mem)} (h : Steps (uart stale).still c c') :
    c'.state.accepted = c.state.accepted := by
  have hload : ∀ (s : Port) (r : Reg), ((uart stale).load s r).2.accepted = s.accepted := by
    intro s r
    obtain ⟨tx, rx, line, accepted⟩ := s
    cases r with
    | FR => rfl
    | DR => cases rx <;> rfl
  induction h with
  | refl => rfl
  | tail _ hs ih =>
    rw [← ih]
    cases hs with
    | @load r k s => exact hload s r
    | @store r v k s =>
      cases r with
      | FR => rfl
      | DR => exact apply_ite Port.accepted .. |>.trans (ite_self _)
    | @leave r cond k s _ => exact hload s r
    | @again r cond k s _ => exact hload s r
    | move h => exact h.elim

/-- `AB`, a carriage return and `C` are in the queue when the call begins. -/
theorem uartRxStr_line_ab :
    let s : Port := ⟨[], [0x41, 0x42, 0x0D, 0x43], [], [0x41, 0x42, 0x0D, 0x43]⟩
    ∃ buf s', Steps (uart 0) ⟨uartRxStr 9 fun _ => 0x55, s⟩ ⟨.done (some buf), s'⟩ ∧
      buf = putStr (fun _ => 0x55) [0x41, 0x42] ∧ s'.rx = [0x43] := by
  intro s
  have hends := (@uartRxStr_line 0 [] 9 (fun _ => 0x55) s rfl _ .refl).2.2.1
  obtain ⟨buf, s', hstill⟩ := hends s.accepted rfl (by decide)
  have hsteps : Steps (uart 0) ⟨uartRxStr 9 fun _ => 0x55, s⟩ ⟨.done (some buf), s'⟩ := hstill.of_still
  obtain ⟨line, -, htaken, hbuf⟩ :=
      (uartRxStr_line [] 9 (fun _ => 0x55) (rfl : s.accepted = [] ++ s.rx) hsteps).2.1 _ rfl
  -- the line is what stands in front of the first carriage return
  have hin : [0x41, 0x42] ++ 0x0D :: [0x43] = line ++ 0x0D :: s'.rx := by
    have h := (accepted_still hstill).symm.trans htaken
    rwa [List.nil_append, List.append_assoc] at h
  obtain ⟨hline, -, hrest⟩ := (List.append_cons_inj_of_notMem (by decide) (by decide)).mp hin
  rw [← hline] at hbuf
  exact ⟨buf, s', hsteps, hbuf, hrest.symm⟩

end

end OpenGpos.Uart
