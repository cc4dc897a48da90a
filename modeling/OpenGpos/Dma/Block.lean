/-
  OpenGpos.Dma.Block — the DMA block and the calls of dma.c on it. Twelve channels copy on their own;
  each reads ahead of its writes as far as it likes. A channel at the end of its transfer triggers the
  one CHAIN_TO names, if that is another. A store to a register of a channel at work is recorded
  (`misused`). The block is out of reset.

  The words are those of the driver; the addresses of a transfer come from the fields of its control
  word (`beats`): the size of an element, which of the two addresses go on, the ring, and BSWAP.
-/
import OpenGpos.Dma.Config
import OpenGpos.Lib.Mmio
import OpenGpos.Lib.Transfers

namespace OpenGpos.Dma

open OpenGpos.Lib OpenGpos.Lib.Bytes OpenGpos.Lib.Mmio OpenGpos.Lib.Transfers
open OpenGpos.Kernel.Startup (DmaChannel dmaCtrlEn dmaCtrlDataSize1Byte dmaCtrlIncrRead dmaCtrlIncrWrite dmaCtrlChainTo
  dmaCtrlTreqSel dmaTreqPermanent)

/-! ## The transfer a control word describes -/

def Fields.elementSize (f : Fields) : Nat := 2 ^ f.dataSize.toNat

def Fields.bswap (f : Fields) : Bool := f.high.getLsbD 1

/-- The next address to read from, or to write to. On a ring only its low bits go on. -/
def Fields.advance (f : Fields) (write : Bool) (addr : Nat) : Nat :=
  if (if write then f.incrWrite else f.incrRead) = 0 then addr
  else if f.ringSize ≠ 0 ∧ f.ringSel = BitVec.ofBool write then
    addr / 2 ^ f.ringSize.toNat * 2 ^ f.ringSize.toNat + (addr + f.elementSize) % 2 ^ f.ringSize.toNat
  else (addr + f.elementSize) % 2 ^ 32

/-- The bytes of one element. -/
def Fields.element (f : Fields) (read write : Nat) : Job Nat :=
  (List.range f.elementSize).map fun i => ⟨read + i, write + if f.bswap then f.elementSize - 1 - i else i⟩

def Fields.beats (f : Fields) : Nat → Nat → Nat → Job Nat
  | 0, _, _ => []
  | n + 1, read, write => f.element read write ++ f.beats n (f.advance false read) (f.advance true write)

/-- The transfer that a channel with these registers makes. -/
def jobOf (config src dst n : UInt32) : Job Nat := (decode config).beats n.toNat src.toNat dst.toNat

/-! ## The block -/

/-- dma_channel_num of them. -/
abbrev Channel := Fin 12

instance channels_ne_zero : NeZero 12 := ⟨by decide⟩

inductive Register where
  | readAddr (channel : Channel)
  | writeAddr (channel : Channel)
  | transCount (channel : Channel)
  | ctrlTrig (channel : Channel)
  /-- Of alias 1: without a trigger. -/
  | ctrl (channel : Channel)
  | multiChanTrig
  /-- A byte of memory. -/
  | mem (a : UInt32)

structure Block where
  engines : State Nat UInt8 Channel
  channels : Channel → DmaChannel
  busy : Channel → Bool
  misused : Bool

namespace Block

def setChannel (b : Block) (channel : Channel) (f : DmaChannel → DmaChannel) : Block :=
  { b with
    channels := Function.update b.channels channel (f (b.channels channel))
    misused := b.misused || b.busy channel }

/-- The addresses are left where the transfer will leave them; nothing looks at them before. -/
def trigger (b : Block) (channel : Channel) : Block :=
  let c := b.channels channel
  if c.ctrl &&& dmaCtrlEn = 0 then b
  else if b.busy channel then { b with misused := true }
  else
    let f := decode c.ctrl
    { b with
      engines := { b.engines with
        work := Function.update b.engines.work channel ⟨[], jobOf c.ctrl c.readAddr c.writeAddr c.transCount⟩ }
      busy := Function.update b.busy channel true
      channels := Function.update b.channels channel { c with
        readAddr := .ofNat ((f.advance false)^[c.transCount.toNat] c.readAddr.toNat)
        writeAddr := .ofNat ((f.advance true)^[c.transCount.toNat] c.writeAddr.toNat) } }

/-- The bit of the channel is set in MULTI_CHAN_TRIGGER. -/
def triggerOf (v : UInt32) (b : Block) (channel : Channel) : Block :=
  if v.toBitVec.getLsbD channel then b.trigger channel else b

def finish (b : Block) (channel : Channel) : Block :=
  let b := { b with busy := Function.update b.busy channel false }
  let next := (decode (b.channels channel).ctrl).chainTo.toNat
  if h : next < 12 then if next = channel then b else b.trigger ⟨next, h⟩ else b

inductive Move : Block → Block → Prop
  | beat {b : Block} {engines : State Nat UInt8 Channel} : Transfers.Step b.engines engines → Move b { b with engines }
  | finish {b : Block} {channel : Channel} : b.busy channel = true → b.engines.work channel = Work.none →
      Move b (b.finish channel)

/-- What is read of CTRL: BUSY is the block's. -/
def ctrl (b : Block) (channel : Channel) : UInt32 :=
  (b.channels channel).ctrl &&& ~~~dmaCtrlBusy ||| if b.busy channel then dmaCtrlBusy else 0

end Block

def dma : Device Register UInt32 Block where
  load b
    | .readAddr channel => ((b.channels channel).readAddr, b)
    | .writeAddr channel => ((b.channels channel).writeAddr, b)
    | .transCount channel => ((b.channels channel).transCount, b)
    | .ctrlTrig channel => (b.ctrl channel, b)
    | .ctrl channel => (b.ctrl channel, b)
    | .multiChanTrig => (0, b)
    | .mem a => ((b.engines.mem a.toNat).toUInt32, b)
  store b
    | .readAddr channel, v => b.setChannel channel fun c => { c with readAddr := v }
    | .writeAddr channel, v => b.setChannel channel fun c => { c with writeAddr := v }
    | .transCount channel, v => b.setChannel channel fun c => { c with transCount := v }
    | .ctrlTrig channel, v => (b.setChannel channel fun c => { c with ctrl := v }).trigger channel
    | .ctrl channel, v => b.setChannel channel fun c => { c with ctrl := v }
    | .multiChanTrig, v => (List.finRange 12).foldl (Block.triggerOf v) b
    | .mem a, v => { b with engines := { b.engines with mem := Function.update b.engines.mem a.toNat v.toUInt8 } }
  move := Block.Move

abbrev DmaProg (α : Type) := Prog Register UInt32 α

/-! ## The driver -/

/-- What a load of CTRL says. -/
def busyBit (ctrl : UInt32) : Bool := ctrl &&& dmaCtrlBusy != 0

def dmaChannelBusy (channel : Channel) : DmaProg Bool := do
  let ctrl ← .read (.ctrl channel)
  pure (busyBit ctrl)

/-- The loop polls as `dmaChannelBusy` does and sleeps a millisecond in between: the block goes on
    meanwhile anyway. -/
def dmaTransferAwait (channel : Channel) : DmaProg Unit :=
  .wait (.ctrl channel) fun ctrl => !busyBit ctrl

def dmaChannelConfigure (channel : Channel) (config src dst n : UInt32) (start : Bool) : DmaProg Unit := do
  dmaTransferAwait channel
  .write (.readAddr channel) src
  .write (.writeAddr channel) dst
  .write (.transCount channel) n
  if start then .write (.ctrlTrig channel) (config ||| dmaCtrlEn)
  else .write (.ctrl channel) (config ||| dmaCtrlEn)

def dmaChannelStart (channel : Channel) : DmaProg Unit :=
  .write .multiChanTrig ((1 : UInt32) <<< (UInt32.ofNat channel &&& 0b1111))

def dmaTransferStart (src dst n : UInt32) (channel : Channel) : DmaProg Unit := do
  dmaTransferAwait channel
  let config := dmaCtrlDataSize1Byte ||| dmaCtrlIncrRead ||| dmaCtrlIncrWrite |||
    dmaCtrlChainTo (UInt32.ofNat channel) ||| dmaCtrlTreqSel dmaTreqPermanent
  dmaChannelConfigure channel config src dst n true

def memcpy (destination source num : UInt32) : DmaProg UInt32 := do
  dmaTransferStart source destination num 0
  dmaTransferAwait 0
  pure destination

end OpenGpos.Dma
