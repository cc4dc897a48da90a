/-
  OpenGpos.Lib.Thumb — the ARMv6-M instructions that an exception handler is made of, over
  a flat memory and a device of any type. The code is in handler mode: its stack pointer is
  the main one. Branches go forwards, over a number of instructions; `run` executes code up
  to its `bx`. A load or store whose address is not aligned faults.

  `call` is what `bl` does to the machine; `Aapcs` is what a C function may do to it.
-/
import OpenGpos.Lib.Bytes

namespace OpenGpos.Lib.Thumb

open OpenGpos.Lib.Bytes

inductive Reg where
  | r0 | r1 | r2 | r3 | r12 | lr
  deriving DecidableEq

structure Cpu (D : Type) where
  reg : Reg → UInt32
  msp : UInt32
  psp : UInt32
  z : Bool
  mem : Mem
  dev : D
  /-- The words stored so far by their addresses, the last one first. -/
  stores : List UInt32

inductive Instr where
  | mov (rd rm : Reg)
  | movi (rd : Reg) (imm : UInt32)
  | and (rd rm : Reg)
  | subi (rd : Reg) (imm : UInt32)
  | cmpi (rn : Reg) (imm : UInt32)
  | mrsMsp (rd : Reg)
  | mrsPsp (rd : Reg)
  | push (r : Reg)
  | pop (r : Reg)
  | ldr (rt rn : Reg) (off : UInt32)
  | ldrh (rt rn : Reg) (off : UInt32)
  | str (rt rn : Reg) (off : UInt32)
  | beq (skip : Nat)
  | b (skip : Nat)
  | bl
  | bx (rm : Reg)

variable {D : Type}

namespace Cpu

def set (s : Cpu D) (r : Reg) (v : UInt32) : Cpu D := { s with reg := fun r' => if r' = r then v else s.reg r' }

/-- The word at `a`. -/
def word (s : Cpu D) (a : UInt32) : UInt32 := UInt32.ofNat (load32 s.mem a.toNat)

def storeWord (s : Cpu D) (a v : UInt32) : Cpu D :=
  { s with mem := store32 s.mem a.toNat v.toNat, stores := a :: s.stores }

section
variable (s : Cpu D) (a v : UInt32)

theorem word_storeWord : (s.storeWord a v).word a = v := by
  show UInt32.ofNat (load32 (store32 s.mem a.toNat v.toNat) a.toNat) = v
  rw [load32_store32 v.toNat_lt, UInt32.ofNat_toNat]

/-- A word that the stored one does not meet. -/
theorem word_storeWord_ne {b : UInt32} (h : b.toNat + 4 ≤ a.toNat ∨ a.toNat + 4 ≤ b.toNat) :
    (s.storeWord a v).word b = s.word b := by
  show UInt32.ofNat (load32 (store32 s.mem a.toNat v.toNat) b.toNat) = _
  rw [load32_store32_ne (by omega)]; rfl

end

end Cpu

/-- One instruction that goes on to the next; `none` is a fault. -/
def exec : Instr → Cpu D → Option (Cpu D)
  | .mov rd rm, s => some (s.set rd (s.reg rm))
  | .movi rd imm, s => some (s.set rd imm)
  | .and rd rm, s => some (s.set rd (s.reg rd &&& s.reg rm))
  | .subi rd imm, s => some (s.set rd (s.reg rd - imm))
  | .cmpi rn imm, s => some { s with z := s.reg rn == imm }
  | .mrsMsp rd, s => some (s.set rd s.msp)
  | .mrsPsp rd, s => some (s.set rd s.psp)
  | .push r, s => some { s.storeWord (s.msp - 4) (s.reg r) with msp := s.msp - 4 }
  | .pop r, s => some { s.set r (s.word s.msp) with msp := s.msp + 4 }
  | .ldr rt rn off, s =>
    let a := s.reg rn + off
    if a % 4 = 0 then some (s.set rt (s.word a)) else none
  | .ldrh rt rn off, s =>
    let a := s.reg rn + off
    if a % 2 = 0 then some (s.set rt ((s.mem a.toNat).toUInt32 ||| (s.mem (a.toNat + 1)).toUInt32 <<< 8)) else none
  | .str rt rn off, s =>
    let a := s.reg rn + off
    if a % 4 = 0 then some (s.storeWord a (s.reg rt)) else none
  | _, s => some s

inductive Outcome (D : Type) where
  | branched (target : UInt32) (s : Cpu D)
  | fault
  | fellOff

/-- `run call code skip s` runs `code` behind its first `skip` instructions. -/
def run (call : Cpu D → Cpu D) : List Instr → Nat → Cpu D → Outcome D
  | [], _, _ => .fellOff
  | _ :: code, skip + 1, s => run call code skip s
  | i :: code, 0, s =>
    match i with
    | .b skip => run call code skip s
    | .beq skip => run call code (if s.z then skip else 0) s
    | .bl => run call code 0 (call s)
    | .bx rm => .branched (s.reg rm) s
    | _ =>
      match exec i s with
      | some s' => run call code 0 s'
      | none => .fault

section
variable {call : Cpu D → Cpu D} {code : List Instr} {rt rn : Reg} {off : UInt32} {s : Cpu D}

theorem run_ldr (h : (s.reg rn + off) % 4 = 0) :
    run call (.ldr rt rn off :: code) 0 s = run call code 0 (s.set rt (s.word (s.reg rn + off))) := by
  simp only [run, exec, h, if_true]

theorem run_ldrh (h : (s.reg rn + off) % 2 = 0) :
    run call (.ldrh rt rn off :: code) 0 s = run call code 0 (s.set rt
      ((s.mem (s.reg rn + off).toNat).toUInt32 ||| (s.mem ((s.reg rn + off).toNat + 1)).toUInt32 <<< 8)) := by
  simp only [run, exec, h, if_true]

theorem run_str (h : (s.reg rn + off) % 4 = 0) :
    run call (.str rt rn off :: code) 0 s = run call code 0 (s.storeWord (s.reg rn + off) (s.reg rt)) := by
  simp only [run, exec, h, if_true]

theorem run_str_fault (h : (s.reg rn + off) % 4 ≠ 0) : run call (.str rt rn off :: code) 0 s = .fault := by
  simp only [run, exec, h, if_false]

end

/-! ## C functions -/

/-- The call is one of a C function that needs at most `depth` bytes of stack: from the
    arguments in r0 and r1 and the memory it computes `f`, the result and what becomes of
    the device. It may change r0 to r3, r12, lr and the flags, and memory of its stack. -/
structure Aapcs (depth : Nat) (f : Mem → UInt32 → UInt32 → D → UInt32 × D) (call : Cpu D → Cpu D) : Prop where
  result : ∀ s, (call s).reg .r0 = (f s.mem (s.reg .r0) (s.reg .r1) s.dev).1
  dev : ∀ s, (call s).dev = (f s.mem (s.reg .r0) (s.reg .r1) s.dev).2
  msp : ∀ s, (call s).msp = s.msp
  psp : ∀ s, (call s).psp = s.psp
  stores : ∀ s, (call s).stores = s.stores
  mem : ∀ s a, a + depth < s.msp.toNat ∨ s.msp.toNat ≤ a → (call s).mem a = s.mem a

/-- What `f` computes, and nothing else changed. -/
def pureCall (f : Mem → UInt32 → UInt32 → D → UInt32 × D) (s : Cpu D) : Cpu D :=
  let r := f s.mem (s.reg .r0) (s.reg .r1) s.dev
  { s.set .r0 r.1 with dev := r.2 }

theorem pureCall_aapcs (depth : Nat) (f : Mem → UInt32 → UInt32 → D → UInt32 × D) : Aapcs depth f (pureCall f) :=
  ⟨fun _ => rfl, fun _ => rfl, fun _ => rfl, fun _ => rfl, fun _ => rfl, fun _ _ _ => rfl⟩

end OpenGpos.Lib.Thumb
