/-
  OpenGpos.Dma.Config — the control word of a DMA channel: dma_get_default_config and the setters of
  dma.c, and the fields they pack into it. Whatever is called, in whatever order, each call changes
  its own field and no other (`decode_configured`). CHAIN_TO of the default is not masked: a channel
  from 16 on runs over into TREQ_SEL, whose bits are all set (`decode_default`).
-/
import OpenGpos.Lib.BitFields
import OpenGpos.Kernel.Startup

namespace OpenGpos.Dma

open OpenGpos.Lib.BitFields
open OpenGpos.Kernel.Startup (dmaCtrlEn dmaCtrlDataSize1Byte dmaCtrlIncrRead dmaCtrlIncrWrite dmaCtrlChainTo
  dmaCtrlTreqSel dmaTreqPermanent)

/-! ## The control word -/

def dmaCtrlRingSel : UInt32 := (1 : UInt32) <<< 10
def dmaCtrlBusy : UInt32 := (1 : UInt32) <<< 24

def dmaGetDefaultConfig (channel : UInt8) : UInt32 :=
  dmaCtrlDataSize1Byte ||| dmaCtrlIncrRead ||| dmaCtrlIncrWrite ||| dmaCtrlChainTo channel.toUInt32 |||
    dmaCtrlTreqSel dmaTreqPermanent

def dmaConfigSetDataSize (config : UInt32) (size : UInt8) : UInt32 :=
  config &&& ~~~((0b11 : UInt32) <<< 2) ||| (size.toUInt32 &&& 0b11) <<< 2

def dmaConfigSetReadIncrement (config : UInt32) (set : Bool) : UInt32 :=
  config &&& ~~~dmaCtrlIncrRead ||| if set then dmaCtrlIncrRead else 0

def dmaConfigSetWriteIncrement (config : UInt32) (set : Bool) : UInt32 :=
  config &&& ~~~dmaCtrlIncrWrite ||| if set then dmaCtrlIncrWrite else 0

def dmaConfigSetChain (config : UInt32) (channel : UInt8) : UInt32 :=
  config &&& ~~~((0b1111 : UInt32) <<< 11) ||| (channel.toUInt32 &&& 0b1111) <<< 11

def dmaConfigSetTreq (config : UInt32) (treq : UInt8) : UInt32 :=
  config &&& ~~~((0b111111 : UInt32) <<< 15) ||| (treq.toUInt32 &&& 0b111111) <<< 15

def dmaConfigSetRing (config : UInt32) (write : Bool) (exponent : UInt8) : UInt32 :=
  let config := config &&& ~~~((0b1111 : UInt32) <<< 6) ||| (exponent.toUInt32 &&& 0b1111) <<< 6
  config &&& ~~~dmaCtrlRingSel ||| if write then dmaCtrlRingSel else 0

/-- A call of one of the setters. -/
inductive Setter where
  | dataSize (size : UInt8)
  | readIncrement (set : Bool)
  | writeIncrement (set : Bool)
  | chain (channel : UInt8)
  | treq (signal : UInt8)
  | ring (write : Bool) (exponent : UInt8)

def Setter.call (config : UInt32) : Setter → UInt32
  | .dataSize size => dmaConfigSetDataSize config size
  | .readIncrement set => dmaConfigSetReadIncrement config set
  | .writeIncrement set => dmaConfigSetWriteIncrement config set
  | .chain channel => dmaConfigSetChain config channel
  | .treq signal => dmaConfigSetTreq config signal
  | .ring write exponent => dmaConfigSetRing config write exponent

/-- The setters called one after the other. -/
def configured (config : UInt32) (calls : List Setter) : UInt32 := calls.foldl Setter.call config

/-! ## Its fields -/

@[ext] structure Fields where
  /-- EN and HIGH_PRIO. -/
  low : BitVec 2
  dataSize : BitVec 2
  incrRead : BitVec 1
  incrWrite : BitVec 1
  ringSize : BitVec 4
  ringSel : BitVec 1
  chainTo : BitVec 4
  treqSel : BitVec 6
  /-- From IRQ_QUIET on. -/
  high : BitVec 11
  deriving DecidableEq

def decode (config : UInt32) : Fields where
  low := field config.toBitVec 0 2
  dataSize := field config.toBitVec 2 2
  incrRead := field config.toBitVec 4 1
  incrWrite := field config.toBitVec 5 1
  ringSize := field config.toBitVec 6 4
  ringSel := field config.toBitVec 10 1
  chainTo := field config.toBitVec 11 4
  treqSel := field config.toBitVec 15 6
  high := field config.toBitVec 21 11

/-- What a setter is for. -/
def Fields.set (f : Fields) : Setter → Fields
  | .dataSize size => { f with dataSize := size.toBitVec.setWidth 2 }
  | .readIncrement set => { f with incrRead := BitVec.ofBool set }
  | .writeIncrement set => { f with incrWrite := BitVec.ofBool set }
  | .chain channel => { f with chainTo := channel.toBitVec.setWidth 4 }
  | .treq signal => { f with treqSel := signal.toBitVec.setWidth 6 }
  | .ring write exponent => { f with ringSize := exponent.toBitVec.setWidth 4, ringSel := BitVec.ofBool write }

/-- The fields are all there is of a control word. -/
theorem decode_injective : Function.Injective decode := by
  intro c c' h
  apply UInt32.toBitVec_inj.mp
  apply eq_of_fields
  intro i hi
  rcases (by omega : i < 2 ∨ (2 ≤ i ∧ i < 4) ∨ i = 4 ∨ i = 5 ∨ (6 ≤ i ∧ i < 10) ∨ i = 10 ∨ (11 ≤ i ∧ i < 15) ∨
    (15 ≤ i ∧ i < 21) ∨ 21 ≤ i) with h' | h' | h' | h' | h' | h' | h' | h' | h'
  · exact ⟨0, 2, by omega, by omega, congrArg Fields.low h⟩
  · exact ⟨2, 2, by omega, by omega, congrArg Fields.dataSize h⟩
  · exact ⟨4, 1, by omega, by omega, congrArg Fields.incrRead h⟩
  · exact ⟨5, 1, by omega, by omega, congrArg Fields.incrWrite h⟩
  · exact ⟨6, 4, by omega, by omega, congrArg Fields.ringSize h⟩
  · exact ⟨10, 1, by omega, by omega, congrArg Fields.ringSel h⟩
  · exact ⟨11, 4, by omega, by omega, congrArg Fields.chainTo h⟩
  · exact ⟨15, 6, by omega, by omega, congrArg Fields.treqSel h⟩
  · exact ⟨21, 11, by omega, by omega, congrArg Fields.high h⟩

/-! ## A call is a put -/

def putField (config : UInt32) (lo len : Nat) (v : BitVec 32) : UInt32 := UInt32.ofBitVec (put config.toBitVec lo len v)

theorem setDataSize_eq (config : UInt32) (size : UInt8) :
    dmaConfigSetDataSize config size = putField config 2 2 (size.toBitVec.setWidth 32) := rfl

theorem setReadIncrement_eq (config : UInt32) (set : Bool) :
    dmaConfigSetReadIncrement config set = putField config 4 1 ((BitVec.ofBool set).setWidth 32) := by
  cases set <;> rfl

theorem setWriteIncrement_eq (config : UInt32) (set : Bool) :
    dmaConfigSetWriteIncrement config set = putField config 5 1 ((BitVec.ofBool set).setWidth 32) := by
  cases set <;> rfl

theorem setChain_eq (config : UInt32) (channel : UInt8) :
    dmaConfigSetChain config channel = putField config 11 4 (channel.toBitVec.setWidth 32) := rfl

theorem setTreq_eq (config : UInt32) (treq : UInt8) :
    dmaConfigSetTreq config treq = putField config 15 6 (treq.toBitVec.setWidth 32) := rfl

theorem setRing_eq (config : UInt32) (write : Bool) (exponent : UInt8) : dmaConfigSetRing config write exponent =
    putField (putField config 6 4 (exponent.toBitVec.setWidth 32)) 10 1 ((BitVec.ofBool write).setWidth 32) := by
  cases write <;> rfl

@[simp] theorem putField_toBitVec (config : UInt32) (lo len : Nat) (v : BitVec 32) :
    (putField config lo len v).toBitVec = put config.toBitVec lo len v := rfl

theorem decode_call (config : UInt32) (call : Setter) : decode (call.call config) = (decode config).set call := by
  cases call with
  | dataSize size =>
    simp only [Setter.call, setDataSize_eq]
    ext1 <;> simp (disch := omega) [decode, Fields.set, field_put, field_put_apart]
  | readIncrement set =>
    simp only [Setter.call, setReadIncrement_eq]
    ext1 <;> simp (disch := omega) [decode, Fields.set, field_put, field_put_apart]
  | writeIncrement set =>
    simp only [Setter.call, setWriteIncrement_eq]
    ext1 <;> simp (disch := omega) [decode, Fields.set, field_put, field_put_apart]
  | chain channel =>
    simp only [Setter.call, setChain_eq]
    ext1 <;> simp (disch := omega) [decode, Fields.set, field_put, field_put_apart]
  | treq signal =>
    simp only [Setter.call, setTreq_eq]
    ext1 <;> simp (disch := omega) [decode, Fields.set, field_put, field_put_apart]
  | ring write exponent =>
    simp only [Setter.call, setRing_eq]
    ext1 <;> simp (disch := omega) [decode, Fields.set, field_put, field_put_apart]

theorem decode_default (channel : UInt8) : decode (dmaGetDefaultConfig channel) =
    ⟨0, 0, 1, 1, 0, 0, channel.toBitVec.setWidth 4, 0x3F, 0⟩ := by
  revert channel
  decide +kernel

/-- From the default of any channel on, any calls in any order: each sets what it is for, and the
    rest is as it was. -/
theorem decode_configured (channel : UInt8) (calls : List Setter) :
    decode (configured (dmaGetDefaultConfig channel) calls) =
    calls.foldl Fields.set ⟨0, 0, 1, 1, 0, 0, channel.toBitVec.setWidth 4, 0x3F, 0⟩ := by
  rw [← decode_default]
  generalize dmaGetDefaultConfig channel = config
  induction calls generalizing config with
  | nil => rfl
  | cons call calls ih => rw [configured, List.foldl_cons, List.foldl_cons, ← decode_call, ← ih]; rfl

end OpenGpos.Dma
