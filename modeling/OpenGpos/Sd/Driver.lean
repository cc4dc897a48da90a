/-
  OpenGpos.Sd.Driver — the SD card driver of lib/sd/SD.c as programs over the SPI port of
  driver/spi/spi.c. Only what the port sees is modelled: the chip select, the delays, the
  clock's divisor and the text for an unsupported card are left out. A loop counts its
  timeout down; the equation for 0 is only there to end the recursion, where the loop in C
  is never entered with 0.
-/
import OpenGpos.Lib.Fifo

namespace OpenGpos.Sd

open OpenGpos.Lib.Fifo

abbrev SpiProg (α : Type) := Prog UInt8 α

/-- Both queues of the port hold eight bytes. -/
def fifoDepth : Nat := 8

def spiSendByte (data : UInt8) : SpiProg Unit := .send data

def spiReadByte : SpiProg UInt8 := .receive

def sdBlockSize : Nat := 512

def deassertCS : SpiProg Unit := spiSendByte 0xFF

def sdSendCommand (command : UInt8) (args : UInt32) (crc : UInt8) : SpiProg Unit := do
  spiSendByte command
  spiSendByte (args >>> 24).toUInt8
  spiSendByte (args >>> 16).toUInt8
  spiSendByte (args >>> 8).toUInt8
  spiSendByte args.toUInt8
  spiSendByte crc
  spiSendByte 0xFF

def readR1Response : Nat → SpiProg UInt8
  | 0 => pure 0xFF
  | timeout + 1 => do
    let res ← spiReadByte
    spiSendByte 0xFF
    if res = 0xFF ∧ 0 < timeout then readR1Response timeout else pure res

/-- `count` times a read and a dummy byte. -/
def readBytes : Nat → SpiProg (List UInt8)
  | 0 => pure []
  | count + 1 => do
    let b ← spiReadByte
    spiSendByte 0xFF
    let bs ← readBytes count
    pure (b :: bs)

/-- The loop for the start token: the last byte read, and what is left of the timeout. -/
def readToken : Nat → SpiProg (UInt8 × Nat)
  | 0 => pure (0xFF, 0)
  | timeout + 1 => do
    let token ← spiReadByte
    spiSendByte 0xFF
    if token = 0xFF ∧ 0 < timeout then readToken timeout else pure (token, timeout)

/-- The buffer is what was written to it. -/
def readDataBlock (timeoutVal : Nat) : SpiProg (Bool × List UInt8) := do
  let (token, timeout) ← readToken timeoutVal
  if timeout = 0 then pure (false, [])
  else if token ≠ 0xFE then pure (false, [])
  else
    let buffer ← readBytes sdBlockSize
    let _crc ← readBytes 2
    pure (true, buffer)

/-! ## Initialisation -/

/-- CMD55 and ACMD41, again until the card is ready; whether it became so in time. -/
def acmd41 : Nat → SpiProg Bool
  | 0 => pure false
  | acmd41Timeout + 1 => do
    sdSendCommand 0x77 0x00000000 0x65
    let cmd55R1 ← readR1Response 0xFF
    deassertCS
    if cmd55R1 ≠ 0x01 then pure false
    else
      sdSendCommand 0x69 0x40000000 0x77
      let acmd41R1 ← readR1Response 0xFF
      deassertCS
      if acmd41R1 = 0x00 then pure true else acmd41 acmd41Timeout

/-- CMD58 and the operating conditions register. -/
def readOcr : SpiProg Bool := do
  sdSendCommand 0x7A 0x00000000 0x01
  let cmd58R1 ← readR1Response 0xFF
  if cmd58R1 = 0x00 then
    let ocrData ← readBytes 4
    if ocrData.getD 0 0 &&& 0x40 = 0 then
      deassertCS
      pure false
    else pure true
  else
    deassertCS
    pure false

def sendBytes : List UInt8 → SpiProg Unit
  | [] => pure ()
  | b :: bs => do
    spiSendByte b
    sendBytes bs

def sdInit : SpiProg Bool := do
  sendBytes (List.replicate 10 0xFF)
  sdSendCommand 0x40 0x00000000 0x95
  let cmd0R1 ← readR1Response 0xFF
  if cmd0R1 ≠ 0x01 then
    deassertCS
    pure false
  else
    sdSendCommand 0x48 0x000001AA 0x87
    let cmd8R1 ← readR1Response 0xFF
    if cmd8R1 = 0x01 then
      let r7Data ← readBytes 4
      deassertCS
      if r7Data.getD 2 0 = 0x01 ∧ r7Data.getD 3 0 = 0xAA then
        let ready ← acmd41 5000
        if ready then readOcr else pure false
      else pure false
    else
      deassertCS
      pure false

/-! ## Blocks -/

def sdReadBlock (blockAddress : UInt32) : SpiProg (Bool × List UInt8) := do
  sdSendCommand 0x51 blockAddress 0x01
  let cmd17R1 ← readR1Response 0xFF
  if cmd17R1 ≠ 0x00 then
    deassertCS
    pure (false, [])
  else
    let r ← readDataBlock 0xFFFF
    deassertCS
    pure r

/-- Up to this many reads, as long as they bring 0xFF. -/
def readDataResponse : Nat → SpiProg UInt8
  | 0 => pure 0xFF
  | n + 1 => do
    let dataResponse ← spiReadByte
    if dataResponse ≠ 0xFF then pure dataResponse else readDataResponse n

/-- The argument is how many busy bytes it takes to give up. -/
def sdWaitForNotBusy : Nat → SpiProg Bool
  | 0 => pure false
  | n + 1 => do
    let b ← spiReadByte
    if b = 0x00 then sdWaitForNotBusy n else pure true

/-- The start token, the data and a dummy CRC. -/
def sendDataBlock (dataBuffer : Nat → UInt8) : SpiProg Unit := do
  spiSendByte 0xFE
  sendBytes ((List.range sdBlockSize).map dataBuffer)
  spiSendByte 0xFF
  spiSendByte 0xFF

def sdWriteBlock (blockAddress : UInt32) (dataBuffer : Nat → UInt8) : SpiProg Bool := do
  sdSendCommand 0x58 blockAddress 0x01
  let cmd24R1 ← readR1Response 0xFF
  if cmd24R1 ≠ 0x00 then
    deassertCS
    pure false
  else
    sendDataBlock dataBuffer
    let dataResponse ← readDataResponse 1000
    if dataResponse &&& 0x1F ≠ 0x05 then
      deassertCS
      pure false
    else
      let ok ← sdWaitForNotBusy 1000001
      deassertCS
      pure ok

def sdShutdown : SpiProg Bool := do
  sdSendCommand 0x40 0x00000000 0x95
  let cmd0R1 ← readR1Response 0xFF
  if cmd0R1 = 0x01 then
    deassertCS
    pure true
  else pure false

/-- With the CRC; it wraps around where `startOffset + count` is more than all of that. -/
def bytesToDiscard (startOffset count : UInt16) : UInt16 := 512 - startOffset - count + 2

/-- The buffer is what was written to it. -/
def readDataBlockPartial (startOffset count : UInt16) (timeoutVal : Nat) : SpiProg (Bool × List UInt8) := do
  let (token, timeout) ← readToken timeoutVal
  if timeout = 0 ∨ token ≠ 0xFE then pure (false, [])
  else
    let _before ← readBytes startOffset.toNat
    let buffer ← readBytes count.toNat
    let _rest ← readBytes (bytesToDiscard startOffset count).toNat
    pure (true, buffer)

def sdReadPartialBlock (blockNumber : UInt32) (offset length : UInt16) : SpiProg (Bool × List UInt8) := do
  sdSendCommand 0x51 blockNumber 0x01
  let cmd17R1 ← readR1Response 0xFF
  if cmd17R1 ≠ 0x00 then
    deassertCS
    pure (false, [])
  else
    let r ← readDataBlockPartial offset length 0xFFFF
    deassertCS
    pure r

/-! ## Bytes that nobody sent -/

def idle (n : Nat) : List UInt8 := List.replicate n 0xFF

theorem enqueue_idle {n : Nat} (h : n ≤ fifoDepth) : enqueue fifoDepth (idle n) 0xFF = idle (min fifoDepth (n + 1)) := by
  unfold enqueue idle
  rw [List.length_replicate]
  split
  · next hl => rw [Nat.min_eq_right (by omega), List.replicate_succ']
  · next hl => rw [Nat.min_eq_left (by omega), show n = fifoDepth by omega]

end OpenGpos.Sd
