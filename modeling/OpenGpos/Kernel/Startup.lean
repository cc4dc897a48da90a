/-
  OpenGpos.Kernel.Startup — from the reset to the call of main: resetHandler of
  startup_rp2040.c, the DMA-backed memcpy it uses and what SystemInit does to the resets.
  The DMA block is held in reset at power-up, and only resetSubsys, in main, lets it go: the
  copy of .data writes to registers that do not take the writes. .bss is cleared, whatever
  its length.
-/
import OpenGpos.Lib.Bytes

namespace OpenGpos.Kernel.Startup

open OpenGpos.Lib.Bytes

/-! ## The board -/

structure DmaChannel where
  readAddr : UInt32
  writeAddr : UInt32
  transCount : UInt32
  ctrl : UInt32

structure Board where
  mem : Mem
  /-- RESETS.RESET: a set bit holds its block in reset. -/
  reset : UInt32
  dmaChannels : Nat → DmaChannel

def dmaCtrlEn : UInt32 := (1 : UInt32) <<< 0
def dmaCtrlDataSize1Byte : UInt32 := (0 : UInt32) <<< 2
def dmaCtrlIncrRead : UInt32 := (1 : UInt32) <<< 4
def dmaCtrlIncrWrite : UInt32 := (1 : UInt32) <<< 5
def dmaCtrlChainTo (x : UInt32) : UInt32 := x <<< 11
def dmaCtrlTreqSel (x : UInt32) : UInt32 := x <<< 15
def dmaTreqPermanent : UInt32 := 0x3F

def Board.dmaHeld (b : Board) : Bool := b.reset &&& (1 : UInt32) <<< 2 != 0

/-- A write to a register of a DMA channel: it has no effect while the block is held. -/
def Board.writeDma (b : Board) (channel : Nat) (f : DmaChannel → DmaChannel) : Board :=
  if b.dmaHeld then b
  else { b with dmaChannels := fun c => if c = channel then f (b.dmaChannels c) else b.dmaChannels c }

/-- `n` transfers of one byte. -/
def transfer (m : Mem) (read write : Nat) (incrRead incrWrite : Bool) : Nat → Mem
  | 0 => m
  | n + 1 =>
    let m' := transfer m read write incrRead incrWrite n
    store8 m' (if incrWrite then write + n else write) (m' (if incrRead then read + n else read))

/-- The write to CTRL_TRIG starts the channel. The processor polls BUSY until the transfer is
    over, so it is over here. -/
def Board.trigger (b : Board) (channel : Nat) (ctrl : UInt32) : Board :=
  if b.dmaHeld then b
  else
    let b := b.writeDma channel fun c => { c with ctrl := ctrl }
    let c := b.dmaChannels channel
    if ctrl &&& dmaCtrlEn = 0 then b
    else { b with mem := transfer b.mem c.readAddr.toNat c.writeAddr.toNat (ctrl &&& dmaCtrlIncrRead != 0)
                           (ctrl &&& dmaCtrlIncrWrite != 0) c.transCount.toNat }

def dmaChannelConfigure (b : Board) (channel : Nat) (config src dst n : UInt32) : Board :=
  let b := b.writeDma channel fun c => { c with readAddr := src }
  let b := b.writeDma channel fun c => { c with writeAddr := dst }
  let b := b.writeDma channel fun c => { c with transCount := n }
  b.trigger channel (config ||| dmaCtrlEn)

def dmaTransferStart (b : Board) (src dst n : UInt32) (channel : Nat) : Board :=
  let config := dmaCtrlDataSize1Byte ||| dmaCtrlIncrRead ||| dmaCtrlIncrWrite |||
    dmaCtrlChainTo (UInt32.ofNat channel) ||| dmaCtrlTreqSel dmaTreqPermanent
  dmaChannelConfigure b channel config src dst n

def memcpy (b : Board) (destination source num : UInt32) : Board := dmaTransferStart b source destination num 0

def memset (m : Mem) (ptr : UInt32) (value : UInt8) (num : UInt32) : Mem := fill m ptr.toNat value num.toNat

section
variable {b : Board}

theorem writeDma_held (h : b.dmaHeld = true) (channel : Nat) (f : DmaChannel → DmaChannel) : b.writeDma channel f = b :=
  if_pos h

theorem memcpy_held (h : b.dmaHeld = true) (destination source num : UInt32) : memcpy b destination source num = b := by
  unfold memcpy dmaTransferStart dmaChannelConfigure
  simp only [writeDma_held h]
  exact if_pos h

theorem transfer_eq_copy (m : Mem) (read write n : Nat) : transfer m read write true true n = copy m write read n := by
  induction n with
  | zero => rfl
  | succ n ih =>
    rw [transfer, ih]
    rfl

theorem writeDma_free (h : b.dmaHeld = false) (channel : Nat) (f : DmaChannel → DmaChannel) : b.writeDma channel f =
    { b with dmaChannels := fun c => if c = channel then f (b.dmaChannels c) else b.dmaChannels c } :=
  if_neg (by rw [h]; decide)

/-- Once the block is out of reset, memcpy copies. -/
theorem memcpy_mem (h : b.dmaHeld = false) (destination source num : UInt32) :
    (memcpy b destination source num).mem = copy b.mem destination.toNat source.toNat num.toNat := by
  have hheld : ∀ (m : Mem) (d : Nat → DmaChannel), (⟨m, b.reset, d⟩ : Board).dmaHeld = false := fun _ _ => h
  unfold memcpy dmaTransferStart dmaChannelConfigure Board.trigger
  simp only [writeDma_free h, writeDma_free (hheld _ _), hheld, Bool.false_eq_true, if_false, if_true]
  rw [if_neg (by decide)]
  exact transfer_eq_copy ..

end

/-! ## The reset handler -/

/-- What linker.ld places: .data in RAM and its image in flash, and .bss behind .data. -/
structure Layout where
  dataStart : UInt32
  dataEnd : UInt32
  sdataf : UInt32
  bssStart : UInt32
  bssEnd : UInt32
  sram : 0x20000000 ≤ dataStart.toNat
  data : dataStart.toNat ≤ dataEnd.toNat
  behind : dataEnd.toNat ≤ bssStart.toNat
  bss : bssStart.toNat ≤ bssEnd.toNat
  fits : bssEnd.toNat ≤ 0x20040000
  flash : sdataf.toNat + (dataEnd.toNat - dataStart.toNat) ≤ 0x10200000

/-- `(end - start) * sizeof(uint32_t)` of pointers to words. Such a difference is taken to be exact, and
    what is compiled is the difference of the addresses: no division, and no remainder to lose. -/
def byteLength (startAddr endAddr : UInt32) : UInt32 := endAddr - startAddr

/-- The clocks, the tick and the interrupt priorities are set up; of the resets the PLL's and
    the timer's are released. -/
def systemInit (b : Board) : Board :=
  { b with reset := b.reset &&& ~~~((1 : UInt32) <<< 12) &&& ~~~((1 : UInt32) <<< 21) }

/-- Up to the call of main. -/
def resetHandler (l : Layout) (b : Board) : Board :=
  let b := memcpy b l.dataStart l.sdataf (byteLength l.dataStart l.dataEnd)
  let b := { b with mem := memset b.mem l.bssStart 0 (byteLength l.bssStart l.bssEnd) }
  systemInit b

/-- The state in which main expects to be called. -/
def Started (l : Layout) (flash m : Mem) : Prop :=
  (∀ i < l.dataEnd.toNat - l.dataStart.toNat, m (l.dataStart.toNat + i) = flash (l.sdataf.toNat + i)) ∧
    ∀ i < l.bssEnd.toNat - l.bssStart.toNat, m (l.bssStart.toNat + i) = 0

/-- Before the reset handler .data already is its image. -/
def ReadyBefore (l : Layout) (m : Mem) : Prop :=
  ∀ i < l.dataEnd.toNat - l.dataStart.toNat, m (l.dataStart.toNat + i) = m (l.sdataf.toNat + i)

section
variable {l : Layout} {b : Board}

theorem byteLength_toNat {s e : UInt32} (h : s.toNat ≤ e.toNat) : (byteLength s e).toNat = e.toNat - s.toNat :=
  UInt32.toNat_sub_of_le e s (UInt32.le_iff_toNat_le.mpr h)

/-- The memory at the call of main: .bss is cleared, and nothing else has changed. -/
theorem resetHandler_mem (h : b.dmaHeld = true) : (resetHandler l b).mem =
    fill b.mem l.bssStart.toNat 0 (l.bssEnd.toNat - l.bssStart.toNat) := by
  unfold resetHandler memset
  rw [memcpy_held h, ← byteLength_toNat l.bss]
  rfl

/-- .bss is all zero at the call of main, whatever the RAM held. -/
theorem resetHandler_bss (h : b.dmaHeld = true) :
    ∀ i < l.bssEnd.toNat - l.bssStart.toNat, (resetHandler l b).mem (l.bssStart.toNat + i) = 0 := by
  intro i hi
  rw [resetHandler_mem h]
  exact fill_in hi

/-- .data is at the call of main what it was at power-up. -/
theorem resetHandler_data (h : b.dmaHeld = true) :
    ∀ i < l.dataEnd.toNat - l.dataStart.toNat, (resetHandler l b).mem (l.dataStart.toNat + i) =
      b.mem (l.dataStart.toNat + i) := by
  intro i hi
  have hb := l.behind
  have hd := l.data
  rw [resetHandler_mem h]
  exact fill_out (by omega)

/-- Whatever the placement and the RAM, at the call of main .data and .bss are as they should
    exactly if the RAM held the image of .data before. -/
theorem starts_up_iff (l : Layout) (h : b.dmaHeld = true) :
    Started l b.mem (resetHandler l b).mem ↔ ReadyBefore l b.mem := by
  have hdata := resetHandler_data (l := l) h
  constructor
  · intro hs i hi
    rw [← hdata i hi]
    exact hs.1 i hi
  · intro hready
    refine ⟨fun i hi => ?_, resetHandler_bss h⟩
    rw [hdata i hi]
    exact hready i hi

end

/-- Eight bytes of .data and seven of .bss. -/
def smallLayout : Layout where
  dataStart := 0x20000000
  dataEnd := 0x20000008
  sdataf := 0x10004000
  bssStart := 0x20000008
  bssEnd := 0x2000000F
  sram := by decide
  data := by decide
  behind := by decide
  bss := by decide
  fits := by decide
  flash := by decide

/-- All blocks held in reset, the given bytes in RAM, and an image that begins with a one. -/
def powerUp (ram : UInt8) : Board where
  mem a := if a < 0x20000000 then (if a = 0x10004000 then 1 else 0) else ram
  reset := 0x01FFFFFF
  dmaChannels _ := ⟨0, 0, 0, 0⟩

/-- RAM of zeroes is no image, so main is not called as it should be. -/
theorem powerUp_zero_not_started : ¬ReadyBefore smallLayout (powerUp 0).mem ∧
    ¬Started smallLayout (powerUp 0).mem (resetHandler smallLayout (powerUp 0)).mem := by
  have hnot : ¬ReadyBefore smallLayout (powerUp 0).mem := fun h => absurd (h 0 (by decide)) (by decide)
  exact ⟨hnot, fun h => hnot ((starts_up_iff smallLayout (by decide)).mp h)⟩

/-- RAM of ones: .data does not become its image, though .bss is cleared to its last byte. -/
theorem powerUp_ones_fails : ¬Started smallLayout (powerUp 0xFF).mem (resetHandler smallLayout (powerUp 0xFF)).mem ∧
    (resetHandler smallLayout (powerUp 0xFF)).mem 0x20000000 = 0xFF ∧ (powerUp 0xFF).mem 0x10004000 = 1 ∧
    (resetHandler smallLayout (powerUp 0xFF)).mem 0x2000000E = 0 := by
  refine ⟨fun h => ?_, by decide +kernel, by decide, by decide +kernel⟩
  have h0 := h.1 0 (by decide)
  exact absurd h0 (by decide +kernel)

end OpenGpos.Kernel.Startup
