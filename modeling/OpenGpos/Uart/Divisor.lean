/-
  OpenGpos.Uart.Divisor — `uart_init`: the baud rate divisor in its two registers. The fraction is
  rounded and nothing is carried from it: where the rest of the divisor is in its last 128th, 64
  is stored for six bits (`uart_divisor_iff`). The two registers add up to the divisor all the same.
-/
import OpenGpos.Lib.Rounding

namespace OpenGpos.Uart

open OpenGpos.Lib.Rounding

/-- `CLK_SYS_HZ`. -/
def clkSysHz : UInt32 := 200000000

/-- The registers of `uart_hw` that are set up. -/
structure UartHw where
  ibrd : UInt32
  fbrd : UInt32
  lcrH : UInt32
  lcr : UInt32

/-- With the `CTRL` of each pin of `io_bank0_hw`. -/
structure Board where
  uart : UartHw
  ctrl : Nat → UInt32

/-- A rate of 0 is divided by. -/
def uartInit (baudRate : UInt32) (b : Board) : Option Board :=
  if baudRate = 0 then none
  else
    let baudRateDiv := 8 * clkSysHz / baudRate
    let ibrd := baudRateDiv >>> 7
    let fbrd : UInt32 := if ibrd = 0 then 0 else ((baudRateDiv &&& 0x7F) + 1) >>> 1
    let ibrd := if ibrd = 0 then 1 else ibrd
    some {
      uart := {
        ibrd
        fbrd
        lcrH := ((0x3 : UInt32) <<< 5) ||| ((1 : UInt32) <<< 4)
        lcr := ((1 : UInt32) <<< 9) ||| ((1 : UInt32) <<< 8) ||| ((1 : UInt32) <<< 0) }
      ctrl := fun pin => if pin = 0 ∨ pin = 1 then 2 else b.ctrl pin }

/-! ## The divisor -/

/-- `CLK_SYS_HZ / (16 b)`, exactly. -/
def exactDivisor (baudRate : UInt32) : ℚ := clkSysHz.toNat / (16 * baudRate.toNat)

/-- The registers hold what the hardware has room for, and within 1/64 of the divisor. -/
structure UartHw.Divides (uart : UartHw) (baudRate : UInt32) : Prop where
  ibrd : 1 ≤ uart.ibrd.toNat ∧ uart.ibrd.toNat ≤ 65535
  fbrd : uart.fbrd.toNat ≤ 63
  near : |(uart.ibrd.toNat : ℚ) + uart.fbrd.toNat / 64 - exactDivisor baudRate| ≤ 1 / 64

section
variable {baudRate : UInt32}

theorem baudRateDiv_toNat : (8 * clkSysHz / baudRate).toNat = ⌊2 * (64 : Nat) * exactDivisor baudRate⌋₊ := by
  have h : 2 * (64 : Nat) * exactDivisor baudRate = ((1600000000 : Nat) : ℚ) / baudRate.toNat := by
    have hclk : clkSysHz.toNat = 200000000 := rfl
    rw [exactDivisor, hclk]
    push_cast
    ring
  rw [h, Nat.floor_div_eq_div, UInt32.toNat_div]
  rfl

theorem ibrd_toNat : ((8 * clkSysHz / baudRate) >>> 7).toNat = whole 64 ⌊2 * (64 : Nat) * exactDivisor baudRate⌋₊ := by
  rw [← baudRateDiv_toNat, UInt32.toNat_shiftRight, whole]
  exact Nat.shiftRight_eq_div_pow _ 7

theorem fbrd_toNat : (((8 * clkSysHz / baudRate &&& 0x7F) + 1) >>> 1).toNat =
    units 64 ⌊2 * (64 : Nat) * exactDivisor baudRate⌋₊ := by
  have hmask : (8 * clkSysHz / baudRate &&& 0x7F).toNat = (8 * clkSysHz / baudRate).toNat % 128 := by
    rw [UInt32.toNat_and]
    exact Nat.and_two_pow_sub_one_eq_mod _ 7
  have hadd : ((8 * clkSysHz / baudRate &&& 0x7F) + 1).toNat = (8 * clkSysHz / baudRate).toNat % 128 + 1 := by
    rw [UInt32.toNat_add, hmask, UInt32.toNat_one]
    have hlt := Nat.mod_lt (8 * clkSysHz / baudRate).toNat (show 0 < 128 by decide)
    omega
  rw [← baudRateDiv_toNat, units, UInt32.toNat_shiftRight, hadd]
  exact Nat.shiftRight_eq_div_pow _ 1

/-- What is written for a rate whose divisor is 1 or more: its whole part and its fraction. -/
theorem uartInit_splits (b : Board) (h : 1 ≤ exactDivisor baudRate) : ∃ b', uartInit baudRate b = some b' ∧
    b'.uart.ibrd.toNat = whole 64 ⌊2 * (64 : Nat) * exactDivisor baudRate⌋₊ ∧
    b'.uart.fbrd.toNat = units 64 ⌊2 * (64 : Nat) * exactDivisor baudRate⌋₊ ∧
    1 ≤ b'.uart.ibrd.toNat := by
  have h0 : baudRate ≠ 0 := by
    rintro rfl
    norm_num [exactDivisor] at h
  have hwhole : 1 ≤ whole 64 ⌊2 * (64 : Nat) * exactDivisor baudRate⌋₊ := by
    have hle : (128 : Nat) ≤ ⌊2 * (64 : Nat) * exactDivisor baudRate⌋₊ := by
      apply Nat.le_floor
      push_cast
      linarith
    unfold whole
    omega
  have hibrd : ¬ (8 * clkSysHz / baudRate) >>> 7 = 0 := by
    intro hz
    rw [← ibrd_toNat, hz] at hwhole
    exact absurd hwhole (by decide)
  refine ⟨_, if_neg h0, ?_, ?_, ?_⟩
  · dsimp only
    rw [if_neg hibrd, ibrd_toNat]
  · dsimp only
    rw [if_neg hibrd, fbrd_toNat]
  · dsimp only
    rw [if_neg hibrd, ibrd_toNat]
    exact hwhole

/-- For every rate whose divisor is in range, what `uart_init` writes fits and is near exactly if
    the fraction of the divisor is below 127/128. -/
theorem uart_divisor_iff (b : Board) (h1 : 1 ≤ exactDivisor baudRate) (h2 : exactDivisor baudRate < 65535) :
    ∃ b', uartInit baudRate b = some b' ∧
      (b'.uart.Divides baudRate ↔ Int.fract (exactDivisor baudRate) < 127 / 128) := by
  obtain ⟨b', e, hi, hf, hpos⟩ := uartInit_splits b h1
  have h0 : 0 ≤ exactDivisor baudRate := by linarith
  have hfract := units_lt_iff (show 0 < 64 by decide) h0
  rw [← hf] at hfract
  have hbound : (1 : ℚ) - 1 / (2 * (64 : Nat)) = 127 / 128 := by norm_num
  rw [hbound] at hfract
  refine ⟨b', e, ?_⟩
  rw [← hfract]
  refine ⟨fun h => Nat.lt_succ_of_le h.fbrd, fun h => ⟨⟨hpos, ?_⟩, Nat.le_of_lt_succ h, ?_⟩⟩
  · have hle : whole 64 ⌊2 * (64 : Nat) * exactDivisor baudRate⌋₊ ≤ 65535 := by
      have hlt : ⌊2 * (64 : Nat) * exactDivisor baudRate⌋₊ < 128 * 65535 := by
        rw [Nat.floor_lt (by positivity)]
        push_cast
        linarith
      unfold whole
      omega
    rw [hi]
    exact hle
  · have hnear := abs_split_sub_le (show 0 < 64 by decide) h0
    rw [← hi, ← hf] at hnear
    refine hnear.trans ?_
    norm_num

end

/-- The rate that the kernel asks for. -/
theorem uart_divisor_115200 : ∃ b', uartInit 115200 ⟨⟨0, 0, 0, 0⟩, fun _ => 0⟩ = some b' ∧ b'.uart.Divides 115200 := by
  obtain ⟨b', e, h⟩ := uart_divisor_iff ⟨⟨0, 0, 0, 0⟩, fun _ => 0⟩ (show 1 ≤ exactDivisor 115200 by decide +kernel)
      (by decide +kernel)
  exact ⟨b', e, h.mpr (by decide +kernel)⟩

/-- 12900 has the divisor 968.992; what is written is 968 and 64. -/
theorem uart_fraction_overflows : (1 ≤ exactDivisor 12900 ∧ exactDivisor 12900 < 65535) ∧
    ∃ b', uartInit 12900 ⟨⟨0, 0, 0, 0⟩, fun _ => 0⟩ = some b' ∧ b'.uart.ibrd = 968 ∧ b'.uart.fbrd = 64 ∧
      ¬ b'.uart.Divides 12900 := by
  refine ⟨⟨by decide +kernel, by decide +kernel⟩, _, rfl, by decide, by decide, ?_⟩
  intro h
  exact absurd h.fbrd (by decide)

end OpenGpos.Uart
