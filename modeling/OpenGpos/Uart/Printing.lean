/-
  OpenGpos.Uart.Printing — the output calls of driver/uart/uart.c one after the other. Each is the
  sending of a text (`Print.prog_eq`), so any sequence of them sends its texts in order whatever the
  transmitter does meanwhile (`prints_in_order`). The texts of the four that print a number are read
  back as that number, and their local buffers are large enough (`number_prints`).
-/
import OpenGpos.Kernel.Syscall
import OpenGpos.Uart.Port

namespace OpenGpos.Uart

open OpenGpos.Lib.Bytes OpenGpos.Lib.Mmio OpenGpos.Lib.Numerals OpenGpos.Libc.Strings OpenGpos.Util

/-! ## Numbers -/

/-- A call that prints a number. -/
inductive Number where
  | hexByte (byte : UInt8)
  | decByte (byte : UInt8)
  | hex (n : UInt32)
  | dec (n : UInt32)

namespace Number

/-- The call, with what its local buffers hold at first. -/
def prog (local₁ local₂ : Mem) : Number → UartProg Unit
  | hexByte byte => uartTxHexByte local₁ byte
  | decByte byte => uartTxDecByte local₁ byte
  | hex n => uartTxHex local₁ n
  | dec n => uartTxDec local₁ local₂ n

/-- The local buffer when it is sent. -/
def buffer (local₁ local₂ : Mem) : Number → Mem
  | hexByte byte => byteToStr local₁ byte
  | decByte byte => byteToDec local₁ byte
  | hex n => hexToStr local₁ n
  | dec n => intToDec local₁ local₂ n

/-- The size of the local buffer. -/
def size : Number → Nat
  | hexByte _ => 3
  | decByte _ => 4
  | hex _ => 9
  | dec _ => 11

def base : Number → Nat
  | hexByte _ | hex _ => 16
  | decByte _ | dec _ => 10

def value : Number → Nat
  | hexByte n | decByte n => n.toNat
  | hex n | dec n => n.toNat

def digits : Number → List Nat
  | hexByte n => fixed 16 2 n.toNat
  | decByte n => fixed 10 3 n.toNat
  | hex n => fixed 16 8 n.toNat
  | dec n => shortest 10 n.toNat

def text (c : Number) : List UInt8 := chars c.digits

section
variable (c : Number) (local₁ local₂ : Mem)

theorem buffer_eq : c.buffer local₁ local₂ = putStr local₁ c.text := by
  cases c with
  | hexByte n => exact byteToStr_eq local₁ n
  | decByte n => exact byteToDec_eq local₁ n
  | hex n => exact hexToStr_eq local₁ n
  | dec n => exact intToDec_eq local₁ local₂ n

theorem digits_lt : ∀ d ∈ c.digits, d < c.base := by
  cases c with
  | hexByte n => exact fixed_lt (Nat.succ_pos 15) 2 n.toNat
  | decByte n => exact fixed_lt (Nat.succ_pos 9) 3 n.toNat
  | hex n => exact fixed_lt (Nat.succ_pos 15) 8 n.toNat
  | dec n => exact shortest_lt (by decide) n.toNat

theorem base_le : c.base ≤ 16 := by cases c <;> simp [base]

theorem length_text : c.text.length < c.size := by
  unfold text
  rw [length_chars]
  cases c with
  | hexByte n => exact Nat.lt_succ_of_le (Nat.le_of_eq (length_fixed 2 n.toNat))
  | decByte n => exact Nat.lt_succ_of_le (Nat.le_of_eq (length_fixed 3 n.toNat))
  | hex n => exact Nat.lt_succ_of_le (Nat.le_of_eq (length_fixed 8 n.toNat))
  | dec n =>
    have hn : n.toNat < 10 ^ 10 := Nat.lt_trans n.toNat_lt (by decide)
    exact Nat.lt_succ_of_le (length_shortest (by decide) (by decide) hn)

theorem valueOf_digits : valueOf c.base c.digits = c.value := by
  cases c with
  | hexByte n =>
    have hn : n.toNat < 16 ^ 2 := n.toNat_lt
    exact (valueOf_fixed 2 n.toNat).trans (Nat.mod_eq_of_lt hn)
  | decByte n =>
    have hn : n.toNat < 10 ^ 3 := Nat.lt_trans n.toNat_lt (by decide)
    exact (valueOf_fixed 3 n.toNat).trans (Nat.mod_eq_of_lt hn)
  | hex n =>
    have hn : n.toNat < 16 ^ 8 := Nat.lt_of_lt_of_le n.toNat_lt (by decide)
    exact (valueOf_fixed 8 n.toNat).trans (Nat.mod_eq_of_lt hn)
  | dec n => exact valueOf_shortest n.toNat

theorem prog_eq : c.prog local₁ local₂ = sendAll c.text := by
  have hstr : c.prog local₁ local₂ = uartTxStr (c.buffer local₁ local₂) 0 c.size := by cases c <;> rfl
  have h0 : ∀ ch ∈ c.text, ch ≠ 0 := chars_ne_zero c.base_le c.digits_lt
  rw [hstr, uartTxStr_eq, buffer_eq, cstring_putStr h0 _ _ (Nat.zero_le _) (by rw [Nat.zero_add]; exact c.length_text)]
  rfl

end

end Number

/-- Whatever is in its local buffers, a call that prints a number sends digits that are read back as
    the number, a decimal one without leading zeros, and stays inside its buffer. -/
theorem number_prints (c : Number) (local₁ local₂ : Mem) :
    c.prog local₁ local₂ = sendAll c.text ∧ (∀ ch ∈ c.text, charDigit ch < c.base) ∧
      valueOf c.base (c.text.map charDigit) = c.value ∧ c.text.length < c.size ∧
      (∀ i, c.size ≤ i → c.buffer local₁ local₂ i = local₁ i) ∧
      ∀ n, c = .dec n → n ≠ 0 → ∃ ch rest, c.text = ch :: rest ∧ charDigit ch ≠ 0 := by
  have hdigits : c.text.map charDigit = c.digits := chars_digits c.base_le c.digits_lt
  refine ⟨c.prog_eq local₁ local₂, fun ch hch => ?_, ?_, c.length_text, fun i hi => ?_, ?_⟩
  · refine c.digits_lt _ ?_
    rw [← hdigits]
    exact List.mem_map_of_mem hch
  · rw [hdigits, c.valueOf_digits]
  · have hlen := c.length_text
    rw [c.buffer_eq, putStr, if_neg (by omega), if_neg (by omega)]
  · rintro n rfl hn
    have hn' : n.toNat ≠ 0 := fun h => hn (UInt32.toNat_inj.mp h)
    obtain ⟨d, ds, hs, hd⟩ := head_shortest (b := 10) n.toNat hn'
    have hlt : d < 10 := shortest_lt (by decide) n.toNat d (hs ▸ List.mem_cons_self)
    refine ⟨digitChar d, chars ds, congrArg chars hs, ?_⟩
    rw [(digitChar_spec d (by omega)).2]
    exact hd

/-! ## Any sequence of output calls -/

inductive Print where
  | tx (x : UInt8)
  | puts (mem : Mem) (str len : UInt32)
  | txStr (x : Mem) (i n : Nat)
  | number (c : Number) (local₁ local₂ : Mem)

namespace Print

def prog : Print → UartProg Unit
  | tx x => uartTx x
  | puts mem str len => uartPuts mem str len.toNat
  | txStr x i n => uartTxStr x i n
  | number c local₁ local₂ => c.prog local₁ local₂

def text : Print → List UInt8
  | tx x => [x]
  | puts mem str len => Kernel.Syscall.uartPuts mem str len.toNat
  | txStr x i n => cstring x i n
  | number c _ _ => c.text

end Print

theorem uartPuts_eq_sendAll (mem : Mem) (len : Nat) : ∀ str : UInt32,
    uartPuts mem str len = sendAll (Kernel.Syscall.uartPuts mem str len) := by
  induction len with
  | zero => exact fun _ => rfl
  | succ len ih =>
    intro str
    rw [uartPuts, ih]
    rfl

theorem Print.prog_eq (c : Print) : c.prog = sendAll c.text := by
  cases c with
  | tx x => rfl
  | puts mem str len => exact uartPuts_eq_sendAll mem len.toNat str
  | txStr x i n => exact uartTxStr_eq x n i
  | number c local₁ local₂ => exact c.prog_eq local₁ local₂

/-- The calls one after the other. -/
def printAll : List Print → UartProg Unit
  | [] => pure ()
  | c :: calls => do
    c.prog
    printAll calls

theorem printAll_eq (calls : List Print) : printAll calls = sendAll (calls.flatMap Print.text) := by
  induction calls with
  | nil => rfl
  | cons c calls ih => rw [printAll, ih, c.prog_eq, List.flatMap_cons, sendAll_append]

/-- Whatever the UART does meanwhile, the texts of any calls go out in order behind what was in the
    queue: no byte is lost, repeated or overtaken at any time, all of them have been handed over when
    the calls are done, and this can always be reached. -/
theorem prints_in_order (stale : UInt32) (calls : List Print) {s : Port} (hs : s.tx.length ≤ fifoDepth)
    {c : Config Reg UInt32 Port Unit} (h : Steps (uart stale) ⟨printAll calls, s⟩ c) :
    (∃ k, c.state.line ++ c.state.tx = s.line ++ s.tx ++ (calls.flatMap Print.text).take k) ∧
      (c.prog = .done () → c.state.line ++ c.state.tx = s.line ++ s.tx ++ calls.flatMap Print.text) ∧
      c.state.tx.length ≤ fifoDepth ∧ ∃ c', Steps (uart stale) c c' ∧ c'.prog = .done () := by
  rw [printAll_eq, ← Prog.bind_done (sendAll _)] at h
  obtain ⟨⟨k, hl, hk⟩, hdone, _, hend⟩ := sendAll_in_order _ () hs h
  refine ⟨⟨k, hk⟩, fun hc => ?_, hl, hend⟩
  have hsent := (hdone () hc).2.2
  rwa [List.take_length] at hsent

/-- `!`, 42 and `->` behind a full queue. -/
theorem prints_in_order_full :
    let calls : List Print := [.tx 0x21, .number (.dec 42) (fun _ => 0x55) (fun _ => 0x55),
      .puts (putStr (fun _ => 0) [0x2D, 0x3E]) 0 2]
    ∃ s', Steps (uart 0) ⟨printAll calls, ⟨List.replicate 32 0x2E, [], [], []⟩⟩ ⟨.done (), s'⟩ ∧
      s'.line ++ s'.tx = List.replicate 32 0x2E ++ [0x21, 0x34, 0x32, 0x2D, 0x3E] ∧ s'.tx.length ≤ 32 := by
  intro calls
  let s : Port := ⟨List.replicate 32 0x2E, [], [], []⟩
  have hs : s.tx.length ≤ fifoDepth := Nat.le_refl 32
  obtain ⟨⟨_, s'⟩, hsteps, rfl⟩ := (prints_in_order 0 calls hs .refl).2.2.2
  obtain ⟨-, hdone, hroom, -⟩ := prints_in_order 0 calls hs hsteps
  have htext : calls.flatMap Print.text = [0x21, 0x34, 0x32, 0x2D, 0x3E] := by decide +kernel
  refine ⟨s', hsteps, ?_, hroom⟩
  rw [← htext]
  exact hdone rfl

end OpenGpos.Uart
