/-
  OpenGpos.Kernel.Clocks — SystemInit of arch/arm_cortexm/rp2040/system_rp2040.c and resetSubsys of
  kernel/main.c beside the clocks they set up. An oscillator takes its time to become stable, the PLL
  to lock, a multiplexer to switch and a subsystem to come out of reset; nothing but the loops of the
  code sees to it that each is waited for. At no moment is the processor on a clock that does not run,
  and on the PLL it is at 200 MHz (`clocks_come_up`).
-/
import OpenGpos.Lib.BringUp

namespace OpenGpos.Kernel.Clocks

open OpenGpos.Lib.Mmio OpenGpos.Lib.BringUp

/-! ## The registers -/

inductive Reg where
  | XOSC_CTRL
  | XOSC_STATUS
  | RESET
  | RESET_DONE
  | PLL_CS
  | PLL_PWR
  | PLL_FBDIV_INT
  | PLL_PRIM
  | REF_CTRL
  | REF_SELECTED
  | SYS_CTRL
  | SYS_SELECTED
  | PERI_CTRL
  | ROSC_CTRL
  | TICK
  | SHPR2
  | SHPR3
  | RVR
  | CVR
  | CSR
  deriving DecidableEq

/-! ## The code -/

def clkSysHz : Nat := 200000000

/-- `SYSTICK_RELOAD_VAL` -/
def systickReloadVal : UInt32 := UInt32.ofNat (clkSysHz / (1000 / 10) - 1)

/-- `v << n` -/
def shl (v n : UInt32) : UInt32 := v <<< n

def systemInit : List (Stmt Reg) := [
  -- XOSC
  .assign .XOSC_CTRL 0xaa0,
  .edit .XOSC_CTRL (.set (shl 0xfab 12)),
  .await .XOSC_STATUS (shl 1 31),
  -- system PLL
  .edit .RESET (.clear (shl 1 12)),
  .await .RESET_DONE (shl 1 12),
  .assign .PLL_FBDIV_INT 100,
  .edit .PLL_PWR (.clear ((shl 1 0) ||| (shl 1 5))),
  .await .PLL_CS (shl 1 31),
  .assign .PLL_PRIM ((shl 6 16) ||| (shl 1 12)),
  .edit .PLL_PWR (.clear (shl 1 3)),
  -- clk_ref, clk_sys and clk_peri
  .edit .REF_CTRL (.set (shl 2 0)),
  .await .REF_SELECTED (shl 1 2),
  .edit .SYS_CTRL (.set (shl 1 0)),
  .await .SYS_SELECTED (shl 1 1),
  .assign .PERI_CTRL (shl 1 11),
  -- ROSC
  .edit .ROSC_CTRL (.insert 0x00fff000 (shl 0xd1e 12)),
  -- timer
  .edit .TICK (.set (shl 12 0)),
  .edit .RESET (.clear (shl 1 21)),
  .await .RESET_DONE (shl 1 21),
  -- NVIC
  .edit .SHPR2 (.insert (shl 0xFF 0) (shl 0x00 0)),
  .edit .SHPR3 (.insert (shl 0xFF 24) (shl 0x80 24)),
  .edit .SHPR3 (.insert (shl 0xFF 16) (shl 0xC0 16)),
  -- SysTick
  .assign .RVR systickReloadVal,
  .assign .CVR 0,
  .edit .CSR (.set ((shl 1 2) ||| (shl 1 1) ||| (shl 1 0)))]

def release (bit : UInt32) : List (Stmt Reg) := [.edit .RESET (.clear bit), .await .RESET_DONE bit]

def resetSubsys : List (Stmt Reg) :=
  release (shl 1 5) ++ release (shl 1 8) ++ release (shl 1 22) ++ release (shl 1 16) ++ release (shl 1 2)

/-- From the reset to the initialised subsystems; what is between the two touches no clock. -/
def bringUp : List (Stmt Reg) := systemInit ++ resetSubsys

/-! ## The chip -/

structure Chip where
  regs : Reg → UInt32
  /-- The crystal oscillator is stable. -/
  stable : Bool
  /-- The subsystems that are out of reset. -/
  done : UInt32
  locked : Bool
  /-- 0 for the ring oscillator, 2 for the crystal. -/
  refSource : UInt32
  /-- 0 for clk_ref, 1 for the PLL. -/
  sysSource : UInt32

def pllBit : UInt32 := shl 1 12

def xoscOn (ctrl : UInt32) : Bool := ctrl &&& 0xFFFFFF == 0xFABAA0

def roscOn (ctrl : UInt32) : Bool := (ctrl >>> 12) &&& 0xFFF != 0xD1E

def refDiv (regs : Reg → UInt32) : Nat := (regs .PLL_CS &&& 0x3F).toNat

/-- Powered, with its VCO between 750 and 1600 MHz. -/
def lockable (regs : Reg → UInt32) : Bool :=
  let vco := 12 * (regs .PLL_FBDIV_INT).toNat / refDiv regs
  regs .PLL_PWR &&& 0x21 == 0 && decide (750 ≤ vco) && decide (vco ≤ 1600)

def pllHz (regs : Reg → UInt32) : Nat :=
  12000000 * (regs .PLL_FBDIV_INT).toNat /
    (refDiv regs * ((regs .PLL_PRIM >>> 16) &&& 7).toNat * ((regs .PLL_PRIM >>> 12) &&& 7).toNat)

def pllReset (regs : Reg → UInt32) : Reg → UInt32
  | .PLL_CS => 1
  | .PLL_PWR => 0x2D
  | .PLL_FBDIV_INT => 0
  | .PLL_PRIM => 0x77000
  | r => regs r

def Chip.put (s : Chip) (r : Reg) (v : UInt32) : Chip := { s with regs := Function.update s.regs r v }

inductive Chip.Move : Chip → Chip → Prop
  | stable {s : Chip} : xoscOn (s.regs .XOSC_CTRL) = true → Move s { s with stable := true }
  | release {s : Chip} (m : UInt32) : m &&& s.regs .RESET = 0 → Move s { s with done := s.done ||| m }
  | lock {s : Chip} : s.stable = true → s.done &&& pllBit = pllBit → lockable s.regs = true →
      Move s { s with locked := true }
  | ref {s : Chip} : Move s { s with refSource := s.regs .REF_CTRL &&& 3 }
  | sys {s : Chip} : Move s { s with sysSource := s.regs .SYS_CTRL &&& 1 }

def chip : Device Reg UInt32 Chip where
  load s
    | .XOSC_STATUS => (if s.stable then shl 1 31 else 0, s)
    | .RESET_DONE => (s.done, s)
    | .PLL_CS => (s.regs .PLL_CS ||| (if s.locked then shl 1 31 else 0), s)
    | .REF_SELECTED => (shl 1 s.refSource, s)
    | .SYS_SELECTED => (shl 1 s.sysSource, s)
    | r => (s.regs r, s)
  store s r v :=
    match r with
    | .XOSC_CTRL => { s.put r v with stable := s.stable && xoscOn v, locked := s.locked && xoscOn v }
    | .RESET => { s with
        regs := Function.update (if v &&& pllBit = 0 then s.regs else pllReset s.regs) .RESET v
        done := s.done &&& ~~~v
        locked := s.locked && v &&& pllBit == 0 }
    | .PLL_CS => if s.done &&& pllBit = pllBit then { s.put r v with locked := false } else s
    | .PLL_FBDIV_INT => if s.done &&& pllBit = pllBit then { s.put r v with locked := false } else s
    | .PLL_PWR => if s.done &&& pllBit = pllBit then { s.put r v with locked := s.locked && v &&& 0x21 == 0 } else s
    | .PLL_PRIM => if s.done &&& pllBit = pllBit then s.put r v else s
    -- the counter of the SysTick is left out
    | .CVR => s
    | .XOSC_STATUS => s
    | .RESET_DONE => s
    | .REF_SELECTED => s
    | .SYS_SELECTED => s
    | r => s.put r v
  move := Chip.Move

/-- The PLL brings 200 MHz. -/
def PllOut (regs : Reg → UInt32) (locked : Bool) : Prop :=
  locked = true ∧ regs .PLL_PWR &&& 8 = 0 ∧ pllHz regs = clkSysHz

instance (regs : Reg → UInt32) (locked : Bool) : Decidable (PllOut regs locked) := by
  unfold PllOut
  infer_instance

/-- clk_ref runs. -/
def RefClocked (s : Chip) : Prop :=
  s.refSource = 0 ∧ roscOn (s.regs .ROSC_CTRL) = true ∨ s.refSource = 2 ∧ s.stable = true

/-- The processor has a clock, from the PLL one of 200 MHz. -/
def Clocked (s : Chip) : Prop := s.sysSource = 0 ∧ RefClocked s ∨ s.sysSource = 1 ∧ PllOut s.regs s.locked

/-- The clocks run, and where a multiplexer is told to switch to is running. -/
structure Safe (s : Chip) : Prop where
  rosc : roscOn (s.regs .ROSC_CTRL) = true ∨ s.refSource = 2
  refTarget : s.regs .REF_CTRL &&& 3 = 0 ∨ s.regs .REF_CTRL &&& 3 = 2 ∧ s.stable = true
  refSource : s.refSource = 0 ∨ s.refSource = 2 ∧ s.regs .REF_CTRL &&& 3 = 2
  sysTarget : s.regs .SYS_CTRL &&& 1 = 0 ∨
    s.regs .SYS_CTRL &&& 1 = 1 ∧ s.regs .SYS_CTRL &&& 0xE0 = 0 ∧ PllOut s.regs s.locked
  sysSource : s.sysSource = 0 ∨ s.sysSource = 1 ∧ s.regs .SYS_CTRL &&& 1 = 1
  resets : s.done &&& s.regs .RESET = 0

theorem Safe.clocked {s : Chip} (h : Safe s) : Clocked s := by
  rcases h.sysSource with h0 | ⟨h1, hc⟩
  · refine .inl ⟨h0, ?_⟩
    rcases h.refSource with hr | ⟨hr, hx⟩
    · rcases h.rosc with ho | h2
      · exact .inl ⟨hr, ho⟩
      · rw [hr] at h2
        exact absurd h2 (by decide)
    · rcases h.refTarget with ht | ⟨-, hs⟩
      · rw [hx] at ht
        exact absurd ht (by decide)
      · exact .inr ⟨hr, hs⟩
  · rcases h.sysTarget with ht | ⟨-, -, hp⟩
    · rw [hc] at ht
      exact absurd ht (by decide)
    · exact .inr ⟨h1, hp⟩

/-! ## What is known -/

structure Known where
  /-- The registers but RESET. -/
  regs : Reg → UInt32
  /-- The bits of RESET that are clear. -/
  released : UInt32
  stable : Bool
  done : UInt32
  locked : Bool
  /-- clk_ref is on the crystal. -/
  ref : Bool
  /-- clk_sys is on the PLL. -/
  sys : Bool

structure Known.Of (k : Known) (s : Chip) : Prop where
  regs : ∀ r, r ≠ .RESET → s.regs r = k.regs r
  released : s.regs .RESET &&& k.released = 0
  stable : k.stable = true → s.stable = true
  done : s.done &&& k.done = k.done
  locked : k.locked = true → s.locked = true
  ref : k.ref = true → s.refSource = 2
  sys : k.sys = true → s.sysSource = 1
  safe : Safe s

namespace Known

def put (k : Known) (r : Reg) (v : UInt32) : Known := { k with regs := Function.update k.regs r v }

/-- The PLL may be changed. -/
def pllFree (k : Known) : Bool := k.done &&& pllBit == pllBit && k.regs .SYS_CTRL &&& 1 == 0

def assign (k : Known) (r : Reg) (v : UInt32) : Option Known :=
  match r with
  | .XOSC_CTRL =>
    if k.regs .REF_CTRL &&& 3 = 0 ∧ k.regs .SYS_CTRL &&& 1 = 0 then
      some { k.put r v with stable := k.stable && xoscOn v, locked := k.locked && xoscOn v }
    else none
  | .PLL_CS => if k.pllFree then some { k.put r v with locked := false } else none
  | .PLL_FBDIV_INT => if k.pllFree then some { k.put r v with locked := false } else none
  | .PLL_PWR => if k.pllFree then some { k.put r v with locked := k.locked && v &&& 0x21 == 0 } else none
  | .PLL_PRIM => if k.pllFree then some (k.put r v) else none
  | .REF_CTRL => if v &&& 3 = 2 ∧ k.stable = true then some (k.put r v) else none
  | .SYS_CTRL => if v &&& 1 = 1 ∧ v &&& 0xE0 = 0 ∧ PllOut k.regs k.locked then some (k.put r v) else none
  | .ROSC_CTRL => if roscOn v = true ∨ k.ref = true then some (k.put r v) else none
  | .PERI_CTRL => some (k.put r v)
  | .TICK => some (k.put r v)
  | .SHPR2 => some (k.put r v)
  | .SHPR3 => some (k.put r v)
  | .RVR => some (k.put r v)
  | .CSR => some (k.put r v)
  | .CVR => some k
  | _ => none

/-- A register that brings what was stored. -/
def plain : Reg → Bool
  | .XOSC_STATUS => false
  | .RESET => false
  | .RESET_DONE => false
  | .PLL_CS => false
  | .REF_SELECTED => false
  | .SYS_SELECTED => false
  | _ => true

def edit (k : Known) (r : Reg) (e : Edit) : Option Known :=
  match r, e with
  | .RESET, .clear m => if (k.released ||| m) &&& pllBit = 0 then none else some { k with released := k.released ||| m }
  | r, e => if plain r then k.assign r (e.apply (k.regs r)) else none

def await (k : Known) (r : Reg) (mask : UInt32) : Option Known :=
  match r with
  | .XOSC_STATUS => if mask = shl 1 31 ∧ xoscOn (k.regs .XOSC_CTRL) = true then some { k with stable := true } else none
  | .RESET_DONE =>
    if (∃ i : Fin 32, mask = shl 1 (UInt32.ofNat i)) ∧ k.released &&& mask = mask then
      some { k with done := k.done ||| mask }
    else none
  | .PLL_CS =>
    if mask = shl 1 31 ∧ k.regs .PLL_CS &&& mask = 0 ∧ k.done &&& pllBit = pllBit ∧ k.stable = true ∧
        lockable k.regs = true then
      some { k with locked := true }
    else none
  | .REF_SELECTED => if mask = shl 1 2 ∧ k.regs .REF_CTRL &&& 3 = 2 then some { k with ref := true } else none
  | .SYS_SELECTED => if mask = shl 1 1 ∧ k.regs .SYS_CTRL &&& 1 = 1 then some { k with sys := true } else none
  | _ => none

end Known

/-! ## Bits -/

section
variable {a b m r x : UInt32}

theorem bits_ext (h : ∀ i < 32, a.toBitVec.getLsbD i = b.toBitVec.getLsbD i) : a = b :=
  UInt32.toBitVec_inj.mp (BitVec.eq_of_getLsbD_eq h)

theorem bits_of (h : a = b) (i : Nat) : a.toBitVec.getLsbD i = b.toBitVec.getLsbD i := by rw [h]

theorem or_outside (h : a &&& m = 0) (b : UInt32) : (a ||| b) &&& m = b &&& m := by
  apply bits_ext
  intro i hi
  have hb := bits_of h i
  simp at hb ⊢
  grind

theorem has_or (h : a &&& m = m) (b : UInt32) : (a ||| b) &&& m = m := by
  apply bits_ext
  intro i hi
  have hb := bits_of h i
  simp at hb ⊢
  grind

theorem kept_done (h : a &&& r = 0) (m : UInt32) : a &&& ~~~(r &&& ~~~m) = a := by
  apply bits_ext
  intro i hi
  have hb := bits_of h i
  simp at hb ⊢
  grind

theorem kept_resets (h : a &&& r = 0) (m : UInt32) : a &&& (r &&& ~~~m) = 0 := by
  apply bits_ext
  intro i hi
  have hb := bits_of h i
  simp at hb ⊢
  grind

theorem or_resets (ha : a &&& r = 0) (hb : b &&& r = 0) : (a ||| b) &&& r = 0 := by
  apply bits_ext
  intro i hi
  have h1 := bits_of ha i
  have h2 := bits_of hb i
  simp at h1 h2 ⊢
  grind

theorem kept_released (h : r &&& a = 0) (m : UInt32) : (r &&& ~~~m) &&& (a ||| m) = 0 := by
  apply bits_ext
  intro i hi
  have hb := bits_of h i
  simp at hb ⊢
  grind

theorem released_clear (h : r &&& a = 0) (hm : a &&& m = m) : m &&& r = 0 := by
  apply bits_ext
  intro i hi
  have h1 := bits_of h i
  have h2 := bits_of hm i
  simp at h1 h2 ⊢
  grind

theorem or_has (a m : UInt32) : (a ||| m) &&& m = m := by
  apply bits_ext
  intro i hi
  simp
  grind

theorem has_trans (h : a &&& b = b) (hb : b &&& m = m) : a &&& m = m := by
  apply bits_ext
  intro i hi
  have h1 := bits_of h i
  have h2 := bits_of hb i
  simp at h1 h2 ⊢
  grind

theorem has_both (h : a &&& b = b) (hm : a &&& m = m) : a &&& (b ||| m) = b ||| m := by
  apply bits_ext
  intro i hi
  have h1 := bits_of h i
  have h2 := bits_of hm i
  simp at h1 h2 ⊢
  grind

/-- A single bit is all of its mask. -/
theorem bit_has {i : Fin 32} (h : a &&& shl 1 (UInt32.ofNat i) ≠ 0) :
    a &&& shl 1 (UInt32.ofNat i) = shl 1 (UInt32.ofNat i) := by
  have hbit : ∀ i : Fin 32, (shl 1 (UInt32.ofNat i)).toBitVec = BitVec.twoPow 32 i := by decide +kernel
  rw [ne_eq, ← UInt32.toBitVec_inj, UInt32.toBitVec_and, hbit i, BitVec.and_twoPow] at h
  rw [← UInt32.toBitVec_inj, UInt32.toBitVec_and, hbit i, BitVec.and_twoPow]
  split
  · rfl
  · rename_i hi
    rw [if_neg hi] at h
    exact absurd rfl h

end

/-! ## Each step -/

section
variable {k k' : Known} {s s' : Chip} {r : Reg} {v : UInt32}

theorem PllOut.mono {regs : Reg → UInt32} {locked : Bool} (h : PllOut regs locked) : PllOut regs true := ⟨rfl, h.2⟩

theorem Known.Of.move (h : k.Of s) (hm : Chip.Move s s') : k.Of s' := by
  have hs := h.safe
  cases hm with
  | stable =>
    refine ⟨h.regs, h.released, fun _ => rfl, h.done, h.locked, h.ref, h.sys, hs.rosc, ?_, hs.refSource, hs.sysTarget,
      hs.sysSource, hs.resets⟩
    exact hs.refTarget.imp_right fun ht => ⟨ht.1, rfl⟩
  | release m hm =>
    exact ⟨h.regs, h.released, h.stable, has_or h.done m, h.locked, h.ref, h.sys, hs.rosc, hs.refTarget, hs.refSource,
      hs.sysTarget, hs.sysSource, or_resets hs.resets hm⟩
  | lock =>
    refine ⟨h.regs, h.released, h.stable, h.done, fun _ => rfl, h.ref, h.sys, hs.rosc, hs.refTarget, hs.refSource, ?_,
      hs.sysSource, hs.resets⟩
    exact hs.sysTarget.imp_right fun ht => ⟨ht.1, ht.2.1, ht.2.2.mono⟩
  | ref =>
    -- the multiplexer is where it was, or goes to the crystal
    have hback : s.regs .REF_CTRL &&& 3 = 0 → s.refSource = 0 := by
      intro h0
      refine hs.refSource.resolve_right fun h2 => ?_
      rw [h0] at h2
      exact absurd h2.2 (by decide)
    refine ⟨h.regs, h.released, h.stable, h.done, h.locked, fun hk => ?_, h.sys, ?_, hs.refTarget, ?_, hs.sysTarget,
      hs.sysSource, hs.resets⟩
    · have h2 := h.ref hk
      rcases hs.refSource with h0 | hr
      · rw [h2] at h0
        exact absurd h0 (by decide)
      · exact hr.2
    · rcases hs.refTarget with h0 | ht
      · rcases hs.rosc with ho | h2
        · exact .inl ho
        · rw [hback h0] at h2
          exact absurd h2 (by decide)
      · exact .inr ht.1
    · exact hs.refTarget.imp id fun ht => ⟨ht.1, ht.1⟩
  | sys =>
    refine ⟨h.regs, h.released, h.stable, h.done, h.locked, h.ref, fun hk => ?_, hs.rosc, hs.refTarget, hs.refSource,
      hs.sysTarget, ?_, hs.resets⟩
    · have h1 := h.sys hk
      rcases hs.sysSource with h0 | ht
      · rw [h1] at h0
        exact absurd h0 (by decide)
      · exact ht.2
    · exact hs.sysTarget.imp id fun ht => ⟨ht.1, ht.1⟩

@[simp] theorem put_regs (s : Chip) (r : Reg) (v : UInt32) : (s.put r v).regs = Function.update s.regs r v := rfl
theorem put_self (s : Chip) (r : Reg) (v : UInt32) : (s.put r v).regs r = v := by rw [put_regs, Function.update_self]
theorem put_of_ne (s : Chip) {r r' : Reg} (h : r' ≠ r) (v : UInt32) : (s.put r v).regs r' = s.regs r' := by
  rw [put_regs, Function.update_of_ne h]
@[simp] theorem put_stable (s : Chip) (r : Reg) (v : UInt32) : (s.put r v).stable = s.stable := rfl
@[simp] theorem put_done (s : Chip) (r : Reg) (v : UInt32) : (s.put r v).done = s.done := rfl
@[simp] theorem put_locked (s : Chip) (r : Reg) (v : UInt32) : (s.put r v).locked = s.locked := rfl
@[simp] theorem put_refSource (s : Chip) (r : Reg) (v : UInt32) : (s.put r v).refSource = s.refSource := rfl
@[simp] theorem put_sysSource (s : Chip) (r : Reg) (v : UInt32) : (s.put r v).sysSource = s.sysSource := rfl

/-- A store, with what it does to the oscillator and the lock. -/
theorem Known.Of.put (h : k.Of s) (hr : r ≠ .RESET) (st st' lk lk' : Bool) (hst : st' = true → st = true)
    (hlk : lk' = true → lk = true) (hs : Safe { s.put r v with stable := st, locked := lk }) :
    Known.Of { k.put r v with stable := st', locked := lk' } { s.put r v with stable := st, locked := lk } := by
  refine ⟨fun r' hr' => ?_, ?_, hst, h.done, hlk, h.ref, h.sys, hs⟩
  · show Function.update s.regs r v r' = Function.update k.regs r v r'
    by_cases he : r' = r
    · rw [he, Function.update_self, Function.update_self]
    · rw [Function.update_of_ne he, Function.update_of_ne he]
      exact h.regs r' hr'
  · show Function.update s.regs r v .RESET &&& k.released = 0
    rw [Function.update_of_ne hr.symm]
    exact h.released

/-- A register that no clock depends on. -/
theorem Safe.put (h : Safe s) (h1 : r ≠ .ROSC_CTRL) (h2 : r ≠ .REF_CTRL) (h3 : r ≠ .SYS_CTRL) (h4 : r ≠ .RESET)
    (h5 : s.regs .SYS_CTRL &&& 1 = 0 ∨ r ≠ .PLL_CS ∧ r ≠ .PLL_PWR ∧ r ≠ .PLL_FBDIV_INT ∧ r ≠ .PLL_PRIM) :
    Safe (s.put r v) := by
  have hregs : ∀ r', r ≠ r' → Function.update s.regs r v r' = s.regs r' :=
    fun r' hr' => Function.update_of_ne hr'.symm ..
  have hsys : s.regs .SYS_CTRL &&& 1 = 0 ∨ s.regs .SYS_CTRL &&& 1 = 1 ∧ s.regs .SYS_CTRL &&& 0xE0 = 0 ∧
      PllOut (Function.update s.regs r v) s.locked := by
    rcases h5 with h0 | ⟨hcs, hpwr, hfb, hprim⟩
    · exact .inl h0
    · refine h.sysTarget.imp_right fun ht => ⟨ht.1, ht.2.1, ?_⟩
      have hp := ht.2.2
      unfold PllOut pllHz refDiv at hp ⊢
      rw [hregs _ hcs, hregs _ hpwr, hregs _ hfb, hregs _ hprim]
      exact hp
  refine ⟨?_, ?_, ?_, ?_, ?_, ?_⟩ <;>
    simp only [put_regs, put_stable, put_done, put_locked, put_refSource, put_sysSource]
  · rw [hregs _ h1]
    exact h.rosc
  · rw [hregs _ h2]
    exact h.refTarget
  · rw [hregs _ h2]
    exact h.refSource
  · rw [hregs _ h3]
    exact hsys
  · rw [hregs _ h3]
    exact h.sysSource
  · rw [hregs _ h4]
    exact h.resets

/-- The crystal and the PLL do not matter while they are not in use. -/
theorem Safe.unused (h : Safe s) (hr : s.regs .REF_CTRL &&& 3 = 0) (h0 : s.regs .SYS_CTRL &&& 1 = 0) (st lk : Bool) :
    Safe { s with stable := st, locked := lk } :=
  ⟨h.rosc, .inl hr, h.refSource, .inl h0, h.sysSource, h.resets⟩

/-- Nor does the lock alone. -/
theorem Safe.unlock (h : Safe s) (h0 : s.regs .SYS_CTRL &&& 1 = 0) (lk : Bool) : Safe { s with locked := lk } :=
  ⟨h.rosc, h.refTarget, h.refSource, .inl h0, h.sysSource, h.resets⟩

theorem Known.Of.free (h : k.Of s) (hf : k.pllFree = true) :
    s.done &&& pllBit = pllBit ∧ s.regs .SYS_CTRL &&& 1 = 0 := by
  simp only [Known.pllFree, Bool.and_eq_true, beq_iff_eq] at hf
  rw [h.regs _ (by decide)]
  exact ⟨has_trans h.done hf.1, hf.2⟩

/-- The PLL is changed while it is not in use. -/
theorem Known.Of.pll (h : k.Of s) (hf : k.pllFree = true)
    (hr : r = .PLL_CS ∨ r = .PLL_FBDIV_INT ∨ r = .PLL_PWR ∨ r = .PLL_PRIM) {lk lk' : Bool}
    (hlk : lk' = true → lk = true) :
    Known.Of { k.put r v with locked := lk' } { s.put r v with locked := lk } := by
  have h0 := (h.free hf).2
  have hne : r ≠ .RESET ∧ r ≠ .ROSC_CTRL ∧ r ≠ .REF_CTRL ∧ r ≠ .SYS_CTRL := by
    rcases hr with rfl | rfl | rfl | rfl <;> decide
  have hsys : (s.put r v).regs .SYS_CTRL &&& 1 = 0 := by
    rw [put_of_ne s hne.2.2.2.symm]
    exact h0
  exact h.put hne.1 s.stable k.stable lk lk' h.stable hlk
    ((h.safe.put hne.2.1 hne.2.2.1 hne.2.2.2 hne.1 (.inl h0)).unlock hsys lk)

/-- A register that only its readers see. -/
theorem Known.Of.other (h : k.Of s) (hr : r = .PERI_CTRL ∨ r = .TICK ∨ r = .SHPR2 ∨ r = .SHPR3 ∨ r = .RVR ∨ r = .CSR) :
    (k.put r v).Of (s.put r v) := by
  refine h.put ?_ s.stable k.stable s.locked k.locked h.stable h.locked (h.safe.put ?_ ?_ ?_ ?_ (.inr ?_)) <;>
    rcases hr with rfl | rfl | rfl | rfl | rfl | rfl <;> decide

theorem Known.Of.assign (h : k.Of s) (hk : k.assign r v = some k') : k'.Of (chip.store s r v) := by
  have regs : ∀ r, r ≠ .RESET → k.regs r = s.regs r := fun r hr => (h.regs r hr).symm
  cases r with
  | XOSC_CTRL =>
    obtain ⟨⟨hr, h0⟩, hk⟩ := Option.ite_none_right_eq_some.mp hk
    cases hk
    rw [regs _ (by decide)] at hr h0
    have hput := h.safe.put (v := v) (r := .XOSC_CTRL) (by decide) (by decide) (by decide) (by decide) (.inl h0)
    refine h.put (by decide) _ _ _ _ ?_ ?_ ((hput.unused ?_ ?_) _ _)
    · simp only [Bool.and_eq_true]
      exact fun hc => ⟨h.stable hc.1, hc.2⟩
    · simp only [Bool.and_eq_true]
      exact fun hc => ⟨h.locked hc.1, hc.2⟩
    · rw [put_of_ne s (by decide)]
      exact hr
    · rw [put_of_ne s (by decide)]
      exact h0
  | PLL_CS =>
    obtain ⟨hf, hk⟩ := Option.ite_none_right_eq_some.mp hk
    cases hk
    show Known.Of _ (if s.done &&& pllBit = pllBit then _ else s)
    rw [if_pos (h.free hf).1]
    exact h.pll hf (.inl rfl) id
  | PLL_FBDIV_INT =>
    obtain ⟨hf, hk⟩ := Option.ite_none_right_eq_some.mp hk
    cases hk
    show Known.Of _ (if s.done &&& pllBit = pllBit then _ else s)
    rw [if_pos (h.free hf).1]
    exact h.pll hf (.inr (.inl rfl)) id
  | PLL_PWR =>
    obtain ⟨hf, hk⟩ := Option.ite_none_right_eq_some.mp hk
    cases hk
    show Known.Of _ (if s.done &&& pllBit = pllBit then _ else s)
    rw [if_pos (h.free hf).1]
    refine h.pll hf (.inr (.inr (.inl rfl))) fun hc => ?_
    rw [Bool.and_eq_true] at hc ⊢
    exact ⟨h.locked hc.1, hc.2⟩
  | PLL_PRIM =>
    obtain ⟨hf, hk⟩ := Option.ite_none_right_eq_some.mp hk
    cases hk
    show Known.Of _ (if s.done &&& pllBit = pllBit then _ else s)
    rw [if_pos (h.free hf).1]
    exact h.pll hf (.inr (.inr (.inr rfl))) h.locked
  | REF_CTRL =>
    obtain ⟨⟨h2, hst⟩, hk⟩ := Option.ite_none_right_eq_some.mp hk
    cases hk
    have hs := h.safe
    have hput := put_self s .REF_CTRL v
    have hother : ∀ r, r ≠ .REF_CTRL → (s.put .REF_CTRL v).regs r = s.regs r := fun r hr => put_of_ne s hr v
    refine h.put (by decide) s.stable k.stable s.locked k.locked h.stable h.locked
      ⟨?_, .inr ⟨?_, h.stable hst⟩, ?_, ?_, ?_, ?_⟩
    · rw [hother _ (by decide)]
      exact hs.rosc
    · exact hput ▸ h2
    · exact hs.refSource.imp id fun hx => ⟨hx.1, hput ▸ h2⟩
    · refine hs.sysTarget.imp (fun h0 => ?_) fun ht => ⟨?_, ?_, ?_⟩
      · rw [hother _ (by decide)]
        exact h0
      · rw [hother _ (by decide)]
        exact ht.1
      · rw [hother _ (by decide)]
        exact ht.2.1
      · exact ht.2.2
    · rw [hother _ (by decide)]
      exact hs.sysSource
    · rw [hother _ (by decide)]
      exact hs.resets
  | SYS_CTRL =>
    obtain ⟨⟨h1, haux, hout⟩, hk⟩ := Option.ite_none_right_eq_some.mp hk
    cases hk
    have hs := h.safe
    have hput := put_self s .SYS_CTRL v
    have hother : ∀ r, r ≠ .SYS_CTRL → (s.put .SYS_CTRL v).regs r = s.regs r := fun r hr => put_of_ne s hr v
    refine h.put (by decide) s.stable k.stable s.locked k.locked h.stable h.locked
      ⟨?_, ?_, ?_, .inr ⟨?_, ?_, ?_⟩, ?_, ?_⟩
    · rw [hother _ (by decide)]
      exact hs.rosc
    · rw [hother _ (by decide)]
      exact hs.refTarget
    · rw [hother _ (by decide)]
      exact hs.refSource
    · exact hput ▸ h1
    · exact hput ▸ haux
    · obtain ⟨hl, hp, hz⟩ := hout
      refine ⟨h.locked hl, ?_, ?_⟩
      · rw [hother _ (by decide), h.regs _ (by decide)]
        exact hp
      · unfold pllHz refDiv at hz ⊢
        rw [hother _ (by decide), hother _ (by decide), hother _ (by decide), h.regs _ (by decide),
          h.regs _ (by decide), h.regs _ (by decide)]
        exact hz
    · exact hs.sysSource.imp id fun hx => ⟨hx.1, hput ▸ h1⟩
    · rw [hother _ (by decide)]
      exact hs.resets
  | ROSC_CTRL =>
    obtain ⟨hor, hk⟩ := Option.ite_none_right_eq_some.mp hk
    cases hk
    have hs := h.safe
    have hput := put_self s .ROSC_CTRL v
    exact h.put (by decide) s.stable k.stable s.locked k.locked h.stable h.locked
      ⟨hor.imp (fun ho => hput ▸ ho) h.ref, hs.refTarget, hs.refSource, hs.sysTarget, hs.sysSource, hs.resets⟩
  | PERI_CTRL => cases hk; exact h.other (.inl rfl)
  | TICK => cases hk; exact h.other (.inr (.inl rfl))
  | SHPR2 => cases hk; exact h.other (.inr (.inr (.inl rfl)))
  | SHPR3 => cases hk; exact h.other (.inr (.inr (.inr (.inl rfl))))
  | RVR => cases hk; exact h.other (.inr (.inr (.inr (.inr (.inl rfl)))))
  | CSR => cases hk; exact h.other (.inr (.inr (.inr (.inr (.inr rfl)))))
  | CVR => cases hk; exact h
  | XOSC_STATUS => cases hk
  | RESET => cases hk
  | RESET_DONE => cases hk
  | REF_SELECTED => cases hk
  | SYS_SELECTED => cases hk

theorem Chip.Move.regs (h : Chip.Move s s') : s'.regs = s.regs := by
  cases h <;> rfl

theorem load_plain (hr : Known.plain r = true) (s : Chip) : chip.load s r = (s.regs r, s) := by
  cases r <;> first | rfl | cases hr

/-- What a change of bits may change: RESET, or a plain register. -/
theorem edit_cases {e : Edit} (hk : k.edit r e = some k') :
    (∃ m, r = .RESET ∧ e = .clear m ∧ (k.released ||| m) &&& pllBit ≠ 0 ∧
        k' = { k with released := k.released ||| m }) ∨
      Known.plain r = true ∧ k.assign r (e.apply (k.regs r)) = some k' := by
  unfold Known.edit at hk
  split at hk
  · rename_i m
    obtain ⟨hne, hk⟩ := Option.ite_none_left_eq_some.mp hk
    cases hk
    exact .inl ⟨m, rfl, rfl, hne, rfl⟩
  · exact .inr (Option.ite_none_right_eq_some.mp hk)

theorem Known.Of.edit_load {e : Edit} (hk : k.edit r e = some k') :
    (chip.load s r).2 = s ∧ ∀ s', Chip.Move s s' → (chip.load s' r).1 = (chip.load s r).1 := by
  rcases edit_cases hk with ⟨m, rfl, -, -, -⟩ | ⟨hr, -⟩
  · exact ⟨rfl, fun s' hm => congrFun hm.regs _⟩
  · refine ⟨by rw [load_plain hr], fun s' hm => ?_⟩
    rw [load_plain hr, load_plain hr]
    exact congrFun hm.regs r

/-- Subsystems come out of reset, the others are as they were. -/
theorem Known.Of.release (h : k.Of s) {m : UInt32} (hm : (k.released ||| m) &&& pllBit ≠ 0) :
    Known.Of { k with released := k.released ||| m } (chip.store s .RESET (s.regs .RESET &&& ~~~m)) := by
  have hs := h.safe
  have hrel := kept_released h.released m
  have hpll : (k.released ||| m) &&& pllBit = pllBit := bit_has (i := 12) hm
  have hclear : (s.regs .RESET &&& ~~~m) &&& pllBit = 0 := by
    rw [UInt32.and_comm]
    exact released_clear hrel hpll
  have hstore : chip.store s .RESET (s.regs .RESET &&& ~~~m) = s.put .RESET (s.regs .RESET &&& ~~~m) := by
    simp only [chip, hclear, if_true, kept_done hs.resets, beq_self_eq_true, Bool.and_true]
    rfl
  have hother : ∀ r, r ≠ .RESET → (s.put .RESET (s.regs .RESET &&& ~~~m)).regs r = s.regs r :=
    fun r hr => put_of_ne s hr _
  rw [hstore]
  refine ⟨fun r hr => (hother r hr).trans (h.regs r hr), ?_, h.stable, h.done, h.locked, h.ref, h.sys, ?_⟩
  · rw [put_self]
    exact hrel
  · refine ⟨hs.rosc, hs.refTarget, hs.refSource, hs.sysTarget, hs.sysSource, ?_⟩
    rw [put_self]
    exact kept_resets hs.resets m

theorem Known.Of.edit {e : Edit} (h : k.Of s) (hk : k.edit r e = some k') :
    k'.Of (chip.store s r (e.apply (chip.load s r).1)) := by
  rcases edit_cases hk with ⟨m, rfl, rfl, hm, rfl⟩ | ⟨hr, hk⟩
  · exact h.release hm
  · have hne : r ≠ .RESET := by
      rintro rfl
      cases hr
    rw [load_plain hr, h.regs r hne]
    exact h.assign hk

/-! ## Each wait -/

theorem load_state (s : Chip) (r : Reg) : (chip.load s r).2 = s := by
  cases r <;> rfl

/-- What a wait found, and what was to come if it did not. -/
theorem Known.Of.await {mask : UInt32} (h : k.Of s) (hk : k.await r mask = some k') :
    ((chip.load s r).1 &&& mask ≠ 0 → k'.Of (chip.load s r).2) ∧
      ∃ s', Chip.Move s s' ∧ (chip.load s' r).1 &&& mask ≠ 0 := by
  have hs := h.safe
  cases r with
  | XOSC_STATUS =>
    obtain ⟨⟨rfl, hon⟩, hsome⟩ := Option.ite_none_right_eq_some.mp hk
    cases hsome
    have hx : xoscOn (s.regs .XOSC_CTRL) = true := by
      rw [h.regs _ (by decide)]
      exact hon
    refine ⟨fun hc => ?_, { s with stable := true }, .stable hx, show shl 1 31 &&& shl 1 31 ≠ 0 by decide⟩
    have hst : s.stable = true := by
      cases hst : s.stable with
      | true => rfl
      | false =>
        simp only [chip, hst] at hc
        exact absurd hc (by decide)
    exact ⟨h.regs, h.released, fun _ => hst, h.done, h.locked, h.ref, h.sys, hs⟩
  | RESET_DONE =>
    obtain ⟨⟨⟨i, rfl⟩, hrel⟩, hsome⟩ := Option.ite_none_right_eq_some.mp hk
    cases hsome
    refine ⟨fun hc => ⟨h.regs, h.released, h.stable, has_both h.done (bit_has hc), h.locked, h.ref, h.sys, hs⟩,
      _, .release _ (released_clear h.released hrel), ?_⟩
    show (s.done ||| _) &&& _ ≠ 0
    rw [or_has]
    clear hk hrel
    revert i
    decide +kernel
  | PLL_CS =>
    obtain ⟨⟨rfl, hcs, hd, hst, hl⟩, hsome⟩ := Option.ite_none_right_eq_some.mp hk
    cases hsome
    have hregs : ∀ r, r ≠ .RESET → s.regs r = k.regs r := h.regs
    have hload : ∀ s' : Chip, s'.regs = s.regs →
        (chip.load s' .PLL_CS).1 &&& shl 1 31 = if s'.locked then shl 1 31 else 0 := by
      intro s' he
      show (s'.regs .PLL_CS ||| _) &&& _ = _
      rw [he, hregs _ (by decide), or_outside hcs]
      cases s'.locked <;> decide
    have hlock : lockable s.regs = true := by
      unfold lockable refDiv at hl ⊢
      rw [hregs _ (by decide), hregs _ (by decide), hregs _ (by decide)]
      exact hl
    refine ⟨fun hc => ?_, { s with locked := true }, .lock (h.stable hst) (has_trans h.done hd) hlock, ?_⟩
    · rw [hload s rfl] at hc
      have hlk : s.locked = true := by
        cases hlk : s.locked with
        | true => rfl
        | false =>
          rw [hlk] at hc
          exact absurd rfl hc
      exact ⟨h.regs, h.released, h.stable, h.done, fun _ => hlk, h.ref, h.sys, hs⟩
    · rw [hload { s with locked := true } rfl]
      exact show shl 1 31 ≠ 0 by decide
  | REF_SELECTED =>
    obtain ⟨⟨rfl, h2⟩, hsome⟩ := Option.ite_none_right_eq_some.mp hk
    cases hsome
    refine ⟨fun hc => ?_, _, .ref, ?_⟩
    · refine ⟨h.regs, h.released, h.stable, h.done, h.locked, fun _ => ?_, h.sys, hs⟩
      rcases hs.refSource with h0 | hr
      · simp only [chip, h0] at hc
        exact absurd hc (by decide)
      · exact hr.1
    · show shl 1 (s.regs .REF_CTRL &&& 3) &&& shl 1 2 ≠ 0
      rw [h.regs _ (by decide), h2]
      decide
  | SYS_SELECTED =>
    obtain ⟨⟨rfl, h1⟩, hsome⟩ := Option.ite_none_right_eq_some.mp hk
    cases hsome
    refine ⟨fun hc => ?_, _, .sys, ?_⟩
    · refine ⟨h.regs, h.released, h.stable, h.done, h.locked, h.ref, fun _ => ?_, hs⟩
      rcases hs.sysSource with h0 | hr
      · simp only [chip, h0] at hc
        exact absurd hc (by decide)
      · exact hr.1
    · show shl 1 (s.regs .SYS_CTRL &&& 1) &&& shl 1 1 ≠ 0
      rw [h.regs _ (by decide), h1]
      decide
  | _ => cases hk

end

def checker : Checker chip Known where
  Knows := Known.Of
  assign := Known.assign
  edit := Known.edit
  await := Known.await
  move h hm := h.move hm
  assign_ok hk h := h.assign hk
  edit_load hk _ := Known.Of.edit_load hk
  edit_ok hk h := h.edit hk
  await_again _ h := by
    rw [load_state]
    exact h
  await_ok hk h hc := (h.await hk).1 hc
  await_met hk h := by
    obtain ⟨s', hm, hc⟩ := (h.await hk).2
    exact ⟨s', .single hm, hc⟩

/-! ## From the reset on -/

/-- What the registers hold after a reset. -/
def bootRegs : Reg → UInt32
  | .PLL_CS => 1
  | .PLL_PWR => 0x2D
  | .PLL_PRIM => 0x77000
  | .ROSC_CTRL => 0xAA0
  | .TICK => 0x200
  | _ => 0

/-- On the ring oscillator, with any subsystems in reset. -/
structure Boot (s : Chip) : Prop where
  regs : ∀ r, r ≠ .RESET → s.regs r = bootRegs r
  refSource : s.refSource = 0
  sysSource : s.sysSource = 0
  resets : s.done &&& s.regs .RESET = 0

def atBoot : Known := ⟨bootRegs, 0, false, 0, false, false, false⟩

theorem Boot.of {s : Chip} (h : Boot s) : atBoot.Of s := by
  refine ⟨h.regs, UInt32.and_zero, ?_, UInt32.and_zero, ?_, ?_, ?_, ?_⟩
  iterate 4 exact fun hc => Bool.noConfusion hc
  refine ⟨.inl ?_, .inl ?_, .inl h.refSource, .inl ?_, .inl h.sysSource, h.resets⟩ <;>
    rw [h.regs _ (by decide)] <;> decide

/-- The clocks as the rest of the code reckons with them. -/
structure Up (s : Chip) : Prop where
  sys : s.sysSource = 1 ∧ PllOut s.regs s.locked
  ref : s.refSource = 2 ∧ s.stable = true
  rosc : roscOn (s.regs .ROSC_CTRL) = false
  /-- clk_peri is clk_sys. -/
  peri : s.regs .PERI_CTRL = shl 1 11
  /-- The timer counts the microseconds of the crystal. -/
  tick : (s.regs .TICK &&& 0x1FF).toNat * 1000000 = 12000000 ∧ s.regs .TICK &&& 0x200 ≠ 0
  /-- The SysTick comes every 10 ms. -/
  systick : ((s.regs .RVR).toNat + 1) * 100 = clkSysHz ∧ (s.regs .RVR).toNat < 2 ^ 24 ∧ s.regs .CSR &&& 7 = 7
  /-- Those of SVC, the SysTick and PendSV. -/
  priorities : s.regs .SHPR2 >>> 24 = 0 ∧ s.regs .SHPR3 >>> 24 = 0x80 ∧ (s.regs .SHPR3 >>> 16) &&& 0xFF = 0xC0
  subsystems : ∀ bit ∈ ([2, 5, 8, 12, 16, 21, 22] : List UInt32), s.done &&& shl 1 bit = shl 1 bit

/-- What the check of the code arrives at. -/
def atEnd : Known := (checker.check bringUp atBoot).get (by decide +kernel)

theorem check_bringUp : checker.check bringUp atBoot = some atEnd := (Option.some_get _).symm

theorem Known.Of.up {s : Chip} (h : atEnd.Of s) : Up s := by
  have regs : ∀ r, r ≠ .RESET → s.regs r = atEnd.regs r := h.regs
  have hlocked : s.locked = true := h.locked (by decide +kernel)
  have hout : PllOut s.regs s.locked := by
    unfold PllOut pllHz refDiv
    rw [regs _ (by decide), regs _ (by decide), regs _ (by decide), regs _ (by decide), hlocked]
    decide +kernel
  refine ⟨⟨h.sys (by decide +kernel), hout⟩, ⟨h.ref (by decide +kernel), h.stable (by decide +kernel)⟩,
    ?_, ?_, ?_, ?_, ?_, ?_⟩
  · rw [regs _ (by decide)]
    decide +kernel
  · rw [regs _ (by decide)]
    decide +kernel
  · rw [regs _ (by decide)]
    decide +kernel
  · rw [regs _ (by decide), regs _ (by decide)]
    decide +kernel
  · rw [regs _ (by decide), regs _ (by decide)]
    decide +kernel
  · have hdone : ∀ bit ∈ ([2, 5, 8, 12, 16, 21, 22] : List UInt32), atEnd.done &&& shl 1 bit = shl 1 bit :=
      List.forall_iff_forall_mem.mp (by decide +kernel)
    exact fun bit hbit => has_trans h.done (hdone bit hbit)

/-- However long the oscillator, the PLL, the multiplexers and the subsystems take: the processor is on
    a running clock at each moment, no loop waits for good, and behind the last the clocks are up. -/
theorem clocks_come_up {s : Chip} (h : Boot s) {c : Config Reg UInt32 Chip Unit}
    (hs : Steps chip ⟨progs bringUp, s⟩ c) :
    Clocked c.state ∧ (∃ s', Steps chip c ⟨.done (), s'⟩) ∧ (c.prog = .done () → Up c.state) := by
  have hp := checked check_bringUp (show checker.Knows atBoot s from h.of) hs
  obtain ⟨k, hk⟩ := hp.knows
  exact ⟨(show k.Of c.state from hk).safe.clocked, hp.ends, fun hd => Known.Of.up (hp.done hd)⟩

/-- A chip at power-up. -/
def powerUp : Chip := ⟨fun r => if r = .RESET then 0x01FFFFFF else bootRegs r, false, 0, false, 0, 0⟩

theorem powerUp_boot : Boot powerUp := ⟨fun _ hr => if_neg hr, rfl, rfl, by decide⟩

theorem clocks_come_up_powerUp : ∃ s', Steps chip ⟨progs bringUp, powerUp⟩ ⟨.done (), s'⟩ ∧ Up s' :=
  have ⟨s', hs⟩ := (clocks_come_up powerUp_boot .refl).2.1
  ⟨s', hs, (clocks_come_up powerUp_boot hs).2.2 rfl⟩

end OpenGpos.Kernel.Clocks
