/-
  OpenGpos.Kernel.Syscall — the SVC handler of kernel/syscall.c. `svCallHandler` is its
  assembly; what it calls is any C function that computes `doSyscall`. The instruction
  behind the call stores the result at the result (`str r0, [r0, #0]`): the frame's address
  was in r0 and is lost. `svc_contract_iff` says when that still answers the caller.
-/
import Mathlib
import OpenGpos.Lib.Thumb

namespace OpenGpos.Kernel.Syscall

open OpenGpos.Lib.Bytes OpenGpos.Lib.Thumb

/-! ## The dispatcher -/

/-- The bytes that `uart_puts` sends. -/
def uartPuts (mem : Mem) (str : UInt32) : Nat → List UInt8
  | 0 => []
  | len + 1 => mem str.toNat :: uartPuts mem (str + 1) len

def text (s : String) : List UInt8 := s.toList.map fun c => UInt8.ofNat c.toNat

/-- The digits that `intToDec` makes. -/
def intToDec (n : UInt32) : List UInt8 :=
  if n = 0 then [0x30] else (Nat.digits 10 n.toNat).reverse.map fun d => UInt8.ofNat d + 0x30

def sysWriteNum : UInt32 := 1

def wordAt (mem : Mem) (a : UInt32) : UInt32 := UInt32.ofNat (load32 mem a.toNat)

/-- `do_syscall`: the return value, and what was sent over the UART. -/
def doSyscall (mem : Mem) (regs syscallNum : UInt32) (uart : List UInt8) : UInt32 × List UInt8 :=
  if syscallNum = sysWriteNum then
    let buf := wordAt mem (regs + 4)
    let count := wordAt mem (regs + 8)
    (count, uart ++ uartPuts mem buf count.toNat)
  else (0xFFFFFFFE, uart ++ text "Unknown syscall number: " ++ intToDec syscallNum ++ text "\r\n")

theorem uartPuts_eq (mem : Mem) (n : Nat) : ∀ str : UInt32,
    uartPuts mem str n = (List.range n).map fun i => mem (str + UInt32.ofNat i).toNat := by
  induction n with
  | zero => intro str; rfl
  | succ n ih =>
    intro str
    rw [uartPuts, ih, List.range_succ_eq_map, List.map_cons, List.map_map]
    congr 1
    · simp
    · refine List.map_congr_left fun i _ => ?_
      have e : str + 1 + UInt32.ofNat i = str + UInt32.ofNat (i + 1) := by
        rw [UInt32.ofNat_add, UInt32.add_assoc, UInt32.add_comm 1]
        rfl
      show mem (str + 1 + UInt32.ofNat i).toNat = mem (str + UInt32.ofNat (i + 1)).toNat
      rw [e]

/-! ## The handler -/

def svCallHandler : List Instr := [
  .mov .r3 .lr,
  .movi .r2 4,
  .and .r3 .r2,
  .cmpi .r3 0,
  .beq 2,
  .mrsPsp .r0,
  .b 1,
  .mrsMsp .r0,
  .push .lr,
  .ldr .r2 .r0 24,
  .subi .r2 2,
  .ldrh .r1 .r2 0,
  .movi .r3 0xFF,
  .and .r1 .r3,
  .bl,
  .str .r0 .r0 0,
  .pop .r3,
  .bx .r3]

/-- The machine with what it has sent over the UART. -/
abbrev Machine := Cpu (List UInt8)

/-- The frame that the hardware stacked: bit 2 of EXC_RETURN tells the stack. -/
def frame (s : Machine) : UInt32 := if s.reg .lr &&& 4 = 0 then s.msp else s.psp

/-- The stacked program counter, behind the SVC instruction. -/
def stackedPc (s : Machine) : UInt32 := s.word (frame s + 24)

/-- The immediate of the SVC instruction. -/
def immediate (s : Machine) : UInt32 := (s.mem ((stackedPc s).toNat - 2)).toUInt32

/-- The memory that `do_syscall` finds: the handler has pushed lr. -/
def atCall (s : Machine) : Mem := store32 s.mem (s.msp - 4).toNat (s.reg .lr).toNat

/-- The first instruction of the handler, after the hardware stacked the frame; it has stored
    nothing yet. The stack has room for the handler and for `depth` bytes of `do_syscall`,
    and neither the frame nor the SVC instruction is in the free part of it. -/
structure AtSvc (depth : Nat) (s : Machine) : Prop where
  excReturn : s.reg .lr = 0xFFFFFFF1 ∨ s.reg .lr = 0xFFFFFFF9 ∨ s.reg .lr = 0xFFFFFFFD
  stores : s.stores = []
  msp : s.msp.toNat % 4 = 0
  room : depth + 4 ≤ s.msp.toNat
  aligned : (frame s).toNat % 4 = 0
  fits : (frame s).toNat + 32 ≤ 2 ^ 32
  apart : (frame s).toNat + 32 + depth + 4 ≤ s.msp.toNat ∨ s.msp.toNat ≤ (frame s).toNat
  pc : (stackedPc s).toNat % 2 = 0 ∧ 2 ≤ (stackedPc s).toNat
  code : (stackedPc s).toNat + 4 ≤ s.msp.toNat ∨ s.msp.toNat + 2 ≤ (stackedPc s).toNat

/-- The handler returns from the exception to `s'` as it should: the frame's R0 is the result
    of the system call, the other words are as they were, and the handler stored nothing but
    that and the word it pushed. A `write` of fewer than 2^31 bytes sends them and returns
    their number. -/
structure Answers (call : Machine → Machine) (s s' : Machine) : Prop where
  returns : run call svCallHandler 0 s = .branched (s.reg .lr) s'
  slot : s'.word (frame s) = (doSyscall (atCall s) (frame s) (immediate s) s.dev).1
  frame : ∀ k : UInt32, 0 < k → k < 8 → s'.word (frame s + 4 * k) = s.word (frame s + 4 * k)
  stores : ∀ a ∈ s'.stores, a = Syscall.frame s ∨ a = s.msp - 4
  write : immediate s = sysWriteNum → (s.word (Syscall.frame s + 8)).toNat < 2 ^ 31 →
    s'.dev = s.dev ++ (List.range (s.word (Syscall.frame s + 8)).toNat).map
      (fun i => atCall s (s.word (Syscall.frame s + 4) + UInt32.ofNat i).toNat) ∧
    s'.word (Syscall.frame s) = s.word (Syscall.frame s + 8)

section
variable {depth : Nat} {s : Machine}

theorem mod_eq_zero {a n : UInt32} : a % n = 0 ↔ a.toNat % n.toNat = 0 := by
  rw [← UInt32.toNat_inj, UInt32.toNat_mod]
  rfl

namespace AtSvc
variable (h : AtSvc depth s)
include h

theorem msp_sub : (s.msp - 4).toNat = s.msp.toNat - 4 := by
  have := h.room
  exact UInt32.toNat_sub_of_le s.msp 4 (UInt32.le_iff_toNat_le.mpr (by show 4 ≤ _; omega))

theorem toNat_add (off : UInt32) (ho : off.toNat < 32) : (frame s + off).toNat = (frame s).toNat + off.toNat := by
  have := h.fits
  rw [UInt32.toNat_add, Nat.mod_eq_of_lt (by omega)]

theorem pc_sub : (stackedPc s - 2).toNat = (stackedPc s).toNat - 2 :=
  UInt32.toNat_sub_of_le _ 2 (UInt32.le_iff_toNat_le.mpr h.pc.2)

/-- The pushed word is apart from the frame. -/
theorem atCall_word (off : UInt32) (ho : off.toNat + 4 ≤ 32) : wordAt (atCall s) (frame s + off) = s.word (frame s + off) := by
  have e := h.toNat_add off (by omega)
  have e' := h.msp_sub
  have := h.apart
  have := h.room
  unfold wordAt atCall
  rw [load32_store32_ne (by omega)]
  rfl

theorem atCall_code : atCall s (stackedPc s - 2).toNat = s.mem ((stackedPc s).toNat - 2) := by
  have e' := h.msp_sub
  have := h.code
  have := h.pc
  have := h.room
  rw [h.pc_sub]
  exact store32_out (by omega)

end AtSvc

/-- The halfword's low byte. -/
theorem and_byte (lo hi : UInt8) : (lo.toUInt32 ||| hi.toUInt32 <<< 8) &&& 0xFF = lo.toUInt32 := by
  have mask : ∀ i < 32, (255#32).getLsbD i = decide (i < 8) := by decide
  rw [← UInt32.toBitVec_inj]
  ext i hi'
  have := mask i hi'
  rw [BitVec.getLsbD_eq_getElem hi'] at this
  by_cases h8 : i < 8
  · simp [this, h8]
  · have : lo.toBitVec.getLsbD i = false := BitVec.getLsbD_of_ge _ i (by omega)
    simp_all

/-- What lies behind the choice of the stack. -/
structure Pushes (s c : Machine) : Prop where
  regs : c.reg .r0 = frame s
  lr : c.reg .lr = s.reg .lr
  msp : c.msp = s.msp
  mem : c.mem = s.mem
  dev : c.dev = s.dev
  stores : c.stores = s.stores

theorem run_to_push (call : Machine → Machine) :
    ∃ c : Machine, Pushes s c ∧ run call svCallHandler 0 s = run call (svCallHandler.drop 8) 0 c := by
  -- the state that `beq` finds
  let c : Machine := { ((s.set .r3 (s.reg .lr)).set .r2 4).set .r3 (s.reg .lr &&& 4) with z := s.reg .lr &&& 4 == 0 }
  have hb : run call svCallHandler 0 s = run call (svCallHandler.drop 5) (if c.z then 2 else 0) c := rfl
  by_cases hz : s.reg .lr &&& 4 = 0
  · have hc : c.z = true := by simpa [c] using hz
    rw [hc] at hb
    refine ⟨c.set .r0 s.msp, ⟨?_, rfl, rfl, rfl, rfl, rfl⟩, hb.trans rfl⟩
    exact (if_pos hz).symm
  · have hc : c.z = false := by simpa [c] using hz
    rw [hc] at hb
    refine ⟨c.set .r0 s.psp, ⟨?_, rfl, rfl, rfl, rfl, rfl⟩, hb.trans rfl⟩
    exact (if_neg hz).symm

/-- Where the call begins. -/
structure Calls (s c : Machine) : Prop where
  regs : c.reg .r0 = frame s
  num : c.reg .r1 = immediate s
  mem : c.mem = atCall s
  msp : c.msp = s.msp - 4
  dev : c.dev = s.dev
  stores : c.stores = [s.msp - 4]

theorem run_to_call (call : Machine → Machine) (h : AtSvc depth s) : ∃ c : Machine, Calls s c ∧
    run call svCallHandler 0 s = run call [.str .r0 .r0 0, .pop .r3, .bx .r3] 0 (call c) := by
  obtain ⟨c, hc, he⟩ := run_to_push (s := s) call
  have hpc : (c.storeWord (c.msp - 4) (c.reg .lr)).word (frame s + 24) = stackedPc s := by
    have := h.atCall_word 24 (by decide)
    unfold wordAt atCall at this
    unfold Cpu.word Cpu.storeWord
    rw [hc.msp, hc.lr, hc.mem]
    exact this
  have hal : (frame s + 24) % 4 = 0 := by
    rw [mod_eq_zero, h.toNat_add 24 (by decide)]
    have := h.aligned
    show ((frame s).toNat + 24) % 4 = 0
    omega
  have hal' : (stackedPc s - 2) % 2 = 0 := by
    rw [mod_eq_zero, h.pc_sub]
    have := h.pc
    show ((stackedPc s).toNat - 2) % 2 = 0
    omega
  have hnum : (atCall s (stackedPc s - 2).toNat).toUInt32 = immediate s := by rw [h.atCall_code]; rfl
  -- the state behind the push
  let m : Machine := { c.storeWord (c.msp - 4) (c.reg .lr) with msp := c.msp - 4 }
  have hmem : m.mem = atCall s := by
    show store32 _ _ _ = store32 _ _ _
    rw [hc.msp, hc.lr, hc.mem]
  have hreg : m.reg .r0 = frame s := hc.regs
  have hword : m.word (m.reg .r0 + 24) = stackedPc s := by rw [hreg]; exact hpc
  let m' := (m.set .r2 (stackedPc s)).set .r2 (stackedPc s - 2)
  have e : run call (svCallHandler.drop 8) 0 c = run call (svCallHandler.drop 11) 0 m' := by
    refine (run_ldr (s := m) (by rw [hreg]; exact hal)).trans ?_
    rw [hword]
    rfl
  have e' : run call (svCallHandler.drop 11) 0 m' =
      run call (svCallHandler.drop 12) 0 (m'.set .r1 ((m'.mem (stackedPc s - 2 + 0).toNat).toUInt32 |||
        (m'.mem ((stackedPc s - 2 + 0).toNat + 1)).toUInt32 <<< 8)) :=
    run_ldrh (s := m') (by show (stackedPc s - 2 + 0) % 2 = 0; rw [UInt32.add_zero]; exact hal')
  refine ⟨(((m'.set .r1 _).set .r3 0xFF).set .r1 _), ⟨hreg, ?_, hmem, ?_, ?_, ?_⟩, (he.trans (e.trans e')).trans rfl⟩
  · show (_ ||| _) &&& (0xFF : UInt32) = _
    rw [and_byte, UInt32.add_zero]
    show (m.mem _).toUInt32 = _
    rw [hmem, hnum]
  · show c.msp - 4 = s.msp - 4
    rw [hc.msp]
  · exact hc.dev
  · show (c.msp - 4) :: c.stores = _
    rw [hc.msp, hc.stores, h.stores]

/-- Behind the call: `r` is the result. -/
structure Called (depth : Nat) (s c : Machine) (r : UInt32) : Prop where
  result : c.reg .r0 = r
  msp : c.msp = s.msp - 4
  dev : c.dev = (doSyscall (atCall s) (frame s) (immediate s) s.dev).2
  stores : c.stores = [s.msp - 4]
  mem : ∀ a, a + depth < (s.msp - 4).toNat ∨ (s.msp - 4).toNat ≤ a → c.mem a = atCall s a

theorem run_to_store {call : Machine → Machine} (h : AtSvc depth s) (hc : Aapcs depth doSyscall call) :
    ∃ c : Machine, Called depth s c (doSyscall (atCall s) (frame s) (immediate s) s.dev).1 ∧
      run call svCallHandler 0 s = run call [.str .r0 .r0 0, .pop .r3, .bx .r3] 0 c := by
  obtain ⟨c, hb, he⟩ := run_to_call call h
  have hr := hc.result c
  have hd := hc.dev c
  rw [hb.mem, hb.regs, hb.num, hb.dev] at hr hd
  refine ⟨call c, ⟨hr, (hc.msp c).trans hb.msp, hd, (hc.stores c).trans hb.stores, ?_⟩, he⟩
  intro a ha
  rw [← hb.msp] at ha
  rw [hc.mem c a ha, hb.mem]

/-- The state that the handler leaves. -/
def done (c : Machine) (r : UInt32) : Machine :=
  { (c.storeWord r r).set .r3 ((c.storeWord r r).word c.msp) with msp := c.msp + 4 }

theorem run_from_store (call : Machine → Machine) {c : Machine} {r : UInt32} (hc : Called depth s c r) :
    run call [.str .r0 .r0 0, .pop .r3, .bx .r3] 0 c =
      if r % 4 = 0 then .branched ((c.storeWord r r).word (s.msp - 4)) (done c r) else .fault := by
  have ha : c.reg .r0 + 0 = r := by rw [UInt32.add_zero, hc.result]
  split
  · next h4 =>
    rw [run_str (by rw [ha]; exact h4), ha, hc.result, ← hc.msp]
    rfl
  · next h4 => exact run_str_fault (by rw [ha]; exact h4)

/-- Only a result that is the frame's address is stored where it belongs. -/
theorem result_eq_frame {call : Machine → Machine} {c s' : Machine} {r : UInt32} (h : AtSvc depth s)
    (hc : Called depth s c r) (he : run call svCallHandler 0 s = run call [.str .r0 .r0 0, .pop .r3, .bx .r3] 0 c)
    (ha : Answers call s s') : r = frame s ∧ r % 4 = 0 := by
  have hr := ha.returns
  rw [he, run_from_store call hc] at hr
  split at hr
  · next h4 =>
    rw [Outcome.branched.injEq] at hr
    obtain ⟨hlr, hs⟩ := hr
    have hst : r ∈ s'.stores := by
      rw [← hs]
      exact List.mem_cons_self
    rcases ha.stores r hst with hf | hm
    · exact ⟨hf, h4⟩
    · -- the return address would be the result, which is aligned
      rw [← hm, Cpu.word_storeWord] at hlr
      rw [hlr] at h4
      rcases h.excReturn with e | e | e <;> rw [e] at h4 <;> exact absurd h4 (by decide)
  · cases hr

theorem word_of_called {c : Machine} {r a : UInt32} (hc : Called depth s c r)
    (ha : a.toNat + 4 + depth ≤ (s.msp - 4).toNat ∨ (s.msp - 4).toNat ≤ a.toNat) : c.word a = wordAt (atCall s) a := by
  unfold Cpu.word wordAt
  congr 1
  refine load32_congr fun i hi hi' => ?_
  exact hc.mem i (by omega)

theorem write_result (hn : immediate s = sysWriteNum) :
    doSyscall (atCall s) (frame s) (immediate s) s.dev = (wordAt (atCall s) (frame s + 8),
      s.dev ++ uartPuts (atCall s) (wordAt (atCall s) (frame s + 4)) (wordAt (atCall s) (frame s + 8)).toNat) := by
  unfold doSyscall
  rw [if_pos hn]

theorem answers_of_frame {call : Machine → Machine} {c : Machine} (h : AtSvc depth s)
    (hc : Called depth s c (frame s)) (hn : immediate s = sysWriteNum) (hw : s.word (frame s + 8) = frame s)
    (he : run call svCallHandler 0 s = run call [.str .r0 .r0 0, .pop .r3, .bx .r3] 0 c) :
    Answers call s (done c (frame s)) := by
  have hm := h.msp_sub
  have hroom := h.room
  have hap := h.apart
  have hal : frame s % 4 = 0 := by rw [mod_eq_zero]; exact h.aligned
  have hslot : (done c (frame s)).word (frame s) = frame s := Cpu.word_storeWord ..
  have hcount : wordAt (atCall s) (frame s + 8) = frame s := (h.atCall_word 8 (by decide)).trans hw
  refine ⟨?_, ?_, ?_, ?_, ?_⟩
  · rw [he, run_from_store call hc, if_pos hal, Cpu.word_storeWord_ne _ _ _ (by omega), word_of_called hc (.inr (Nat.le_refl _))]
    unfold wordAt atCall
    rw [load32_store32 (s.reg .lr).toNat_lt, UInt32.ofNat_toNat]
  · rw [hslot, write_result hn, hcount]
  · intro k hk hk8
    have h8 : k.toNat < 8 := UInt32.lt_iff_toNat_lt.mp hk8
    have hk' : (4 * k).toNat = 4 * k.toNat := by
      rw [UInt32.toNat_mul]
      exact Nat.mod_eq_of_lt (show 4 * k.toNat < 2 ^ 32 by omega)
    have h0 : 0 < k.toNat := UInt32.lt_iff_toNat_lt.mp hk
    have hadd := h.toNat_add (4 * k) (by omega)
    show (c.storeWord (frame s) (frame s)).word _ = _
    rw [Cpu.word_storeWord_ne _ _ _ (by omega), word_of_called hc (by omega), h.atCall_word (4 * k) (by omega)]
  · intro a ha
    have : a ∈ [frame s, s.msp - 4] := by rw [← hc.stores]; exact ha
    simpa using this
  · intro _ _
    rw [hslot, hw]
    refine ⟨?_, rfl⟩
    show c.dev = _
    rw [hc.dev, write_result hn, uartPuts_eq, hcount, h.atCall_word 4 (by decide)]

/-- The handler answers exactly the `write` whose count is the address of the frame. -/
theorem svc_contract_iff {call : Machine → Machine} (h : AtSvc depth s) (hc : Aapcs depth doSyscall call) :
    (∃ s', Answers call s s') ↔ immediate s = sysWriteNum ∧ s.word (frame s + 8) = frame s := by
  obtain ⟨c, hcalled, he⟩ := run_to_store h hc
  have h8 := h.atCall_word 8 (by decide)
  constructor
  · rintro ⟨s', ha⟩
    obtain ⟨hr, h4⟩ := result_eq_frame h hcalled he ha
    by_cases hn : immediate s = sysWriteNum
    · rw [write_result hn, h8] at hr
      exact ⟨hn, hr⟩
    · unfold doSyscall at h4
      rw [if_neg hn] at h4
      exact absurd (show (0xFFFFFFFE : UInt32) % 4 = 0 from h4) (by decide)
  · rintro ⟨hn, hw⟩
    have hr : (doSyscall (atCall s) (frame s) (immediate s) s.dev).1 = frame s := by rw [write_result hn, h8, hw]
    rw [hr] at hcalled
    exact ⟨_, answers_of_frame h hcalled hn hw he⟩

end

/-- A `write(1, buf, count)` from code in flash, on the main stack. -/
def writeOf (count : Nat) : Machine where
  reg r := if r = .lr then 0xFFFFFFF9 else 0
  msp := 0x2003FF00
  psp := 0
  z := false
  mem := store32 (store32 (store32 (store32 (store32 (fun _ => 0) 0x2003FF00 1) 0x2003FF04 0x20001000) 0x2003FF08 count)
    0x2003FF18 0x10001002) 0x10001000 0xDF01
  dev := []
  stores := []

theorem atSvc_writeOf_frame : AtSvc 256 (writeOf 0x2003FF00) :=
  ⟨by decide, by decide, by decide, by decide, by decide +kernel, by decide +kernel, by decide +kernel, by decide +kernel,
    by decide +kernel⟩

/-- A buffer of as many bytes as the frame's address says. -/
theorem svc_contract_sample : ∃ s', Answers (pureCall doSyscall) (writeOf 0x2003FF00) s' :=
  (svc_contract_iff atSvc_writeOf_frame (pureCall_aapcs 256 doSyscall)).mpr (by decide +kernel)

theorem atSvc_writeOf_twenty : AtSvc 256 (writeOf 20) :=
  ⟨by decide, by decide, by decide, by decide, by decide +kernel, by decide +kernel, by decide +kernel, by decide +kernel,
    by decide +kernel⟩

/-- Twenty bytes: the result is stored at address 20, and the caller finds its descriptor in r0. -/
theorem write_loses_result :
    (∃ s', run (pureCall doSyscall) svCallHandler 0 (writeOf 20) = .branched 0xFFFFFFF9 s' ∧
      (doSyscall (atCall (writeOf 20)) 0x2003FF00 1 []).1 = 20 ∧ s'.word 0x2003FF00 = 1 ∧ s'.stores = [20, 0x2003FEFC]) ∧
    ¬∃ s', Answers (pureCall doSyscall) (writeOf 20) s' := by
  obtain ⟨c, hc, he⟩ := run_to_store atSvc_writeOf_twenty (pureCall_aapcs 256 doSyscall)
  constructor
  · exact ⟨_, rfl, by decide +kernel, by decide +kernel, by decide +kernel⟩
  · rintro ⟨s', ha⟩
    have hr := (result_eq_frame atSvc_writeOf_twenty hc he ha).1
    exact absurd hr (by decide +kernel)

end OpenGpos.Kernel.Syscall
