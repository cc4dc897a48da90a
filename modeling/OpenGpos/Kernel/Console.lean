/-
  OpenGpos.Kernel.Console — do_syscall of kernel/syscall.c at the UART itself. What it stores there,
  polling the flags before each byte, is what `Syscall.doSyscall` says it sends, so any number of
  system calls writes its texts in the order of the calls, whatever the transmitter does meanwhile
  (`calls_in_order`).
-/
import OpenGpos.Uart.Printing

namespace OpenGpos.Kernel.Console

open OpenGpos.Lib.Bytes OpenGpos.Lib.Mmio OpenGpos.Lib.Numerals OpenGpos.Libc.Strings OpenGpos.Util OpenGpos.Uart
open OpenGpos.Kernel.Syscall (text sysWriteNum wordAt)

/-- A string literal in memory. -/
def literal (s : String) : Mem := putStr (fun _ => 0) (text s)

def sysWrite (mem : Mem) (buf count : UInt32) : UartProg UInt32 := do
  uartPuts mem buf count.toNat
  pure count

/-- `do_syscall`; `dec` and `tempStr` are what the buffers of `uartTxDec` hold at first. -/
def doSyscall (dec tempStr mem : Mem) (regs syscallNum : UInt32) : UartProg UInt32 :=
  if syscallNum = sysWriteNum then sysWrite mem (wordAt mem (regs + 4)) (wordAt mem (regs + 8))
  else do
    uartTxStr (literal "Unknown syscall number: ") 0 25
    uartTxDec dec tempStr syscallNum
    uartTxStr (literal "\r\n") 0 3
    pure 0xFFFFFFFE

/-! ## The texts -/

theorem uartTxStr_literal (s : String) (h0 : ∀ c ∈ text s, c ≠ 0) {n : Nat} (hn : (text s).length < n) :
    uartTxStr (literal s) 0 n = sendAll (text s) := by
  rw [uartTxStr_eq, literal, cstring_putStr h0 _ _ (Nat.zero_le _) (by omega)]
  rfl

/-- The digits of the dispatcher's message are those of the number. -/
theorem intToDec_text (n : UInt32) : Syscall.intToDec n = (Number.dec n).text := by
  have hzero : n = 0 ↔ n.toNat = 0 := by rw [← UInt32.toNat_inj]; rfl
  show Syscall.intToDec n = (shortest 10 n.toNat).map digitChar
  unfold Syscall.intToDec shortest
  by_cases h0 : n = 0
  · rw [if_pos h0, if_pos (hzero.mp h0)]
    rfl
  · rw [if_neg h0, if_neg fun h => h0 (hzero.mpr h)]
    refine List.map_congr_left fun d hd => ?_
    exact (digitChar_dec d (Nat.digits_lt_base (by decide) (List.mem_reverse.mp hd))).symm

/-- What a system call sends, and what it returns. -/
def output (mem : Mem) (regs syscallNum : UInt32) : List UInt8 := (Syscall.doSyscall mem regs syscallNum []).2

theorem doSyscall_output (mem : Mem) (regs syscallNum : UInt32) (uart : List UInt8) :
    Syscall.doSyscall mem regs syscallNum uart =
      ((Syscall.doSyscall mem regs syscallNum []).1, uart ++ output mem regs syscallNum) := by
  unfold output Syscall.doSyscall
  split <;> simp

theorem doSyscall_eq (dec tempStr mem : Mem) (regs syscallNum : UInt32) : doSyscall dec tempStr mem regs syscallNum =
    sendAll (output mem regs syscallNum) >>= fun _ => .done (Syscall.doSyscall mem regs syscallNum []).1 := by
  unfold doSyscall output Syscall.doSyscall
  by_cases hn : syscallNum = sysWriteNum
  · rw [if_pos hn, if_pos hn, sysWrite, uartPuts_eq_sendAll]
    rfl
  · have hdec : uartTxDec dec tempStr syscallNum = sendAll (Syscall.intToDec syscallNum) := by
      rw [intToDec_text]
      exact (Number.dec syscallNum).prog_eq dec tempStr
    rw [if_neg hn, if_neg hn, uartTxStr_literal _ (by decide +kernel) (by decide +kernel),
      uartTxStr_literal _ (by decide +kernel) (by decide +kernel), hdec]
    dsimp only
    rw [List.nil_append, sendAll_append, sendAll_append, Prog.bind_assoc, Prog.bind_assoc]
    rfl

/-! ## Calls one after the other -/

structure SysCall where
  mem : Mem
  regs : UInt32
  num : UInt32
  dec : Mem
  tempStr : Mem

/-- The results, in the order of the calls. -/
def serve : List SysCall → UartProg (List UInt32)
  | [] => pure []
  | c :: calls => do
    let r ← doSyscall c.dec c.tempStr c.mem c.regs c.num
    let rs ← serve calls
    pure (r :: rs)

/-- The dispatcher as a function of what was sent, over the same calls. -/
def answers : List SysCall → List UInt8 → List UInt32 × List UInt8
  | [], uart => ([], uart)
  | c :: calls, uart =>
    let (r, uart) := Syscall.doSyscall c.mem c.regs c.num uart
    let (rs, uart) := answers calls uart
    (r :: rs, uart)

def outputs (calls : List SysCall) : List UInt8 := calls.flatMap fun c => output c.mem c.regs c.num

theorem outputs_cons (c : SysCall) (calls : List SysCall) :
    outputs (c :: calls) = output c.mem c.regs c.num ++ outputs calls := List.flatMap_cons ..

theorem answers_eq (calls : List SysCall) : ∀ uart,
    answers calls uart = (calls.map fun c => (Syscall.doSyscall c.mem c.regs c.num []).1, uart ++ outputs calls) := by
  induction calls with
  | nil =>
    intro uart
    rw [show outputs [] = [] from rfl, List.append_nil]
    rfl
  | cons c calls ih =>
    intro uart
    rw [answers, doSyscall_output]
    dsimp only
    rw [ih, outputs_cons, List.append_assoc]
    rfl

theorem serve_eq (calls : List SysCall) : serve calls = sendAll (outputs calls) >>= fun _ => .done
    (answers calls []).1 := by
  induction calls with
  | nil => rfl
  | cons c calls ih =>
    rw [serve, ih, doSyscall_eq, answers_eq, answers_eq, outputs_cons, sendAll_append, Prog.bind_assoc, Prog.bind_assoc]
    refine congrArg (sendAll (output c.mem c.regs c.num) >>= ·) (funext fun _ => ?_)
    show (sendAll _ >>= _) >>= _ = _
    rw [Prog.bind_assoc]
    rfl

/-- System calls at the UART come to what the dispatcher says of them: their texts go out in the
    order of the calls behind what was in the queue, whatever the UART does meanwhile; when they are
    done all is handed over and the results are those of the dispatcher, and this can always be
    reached. -/
theorem calls_in_order (stale : UInt32) (calls : List SysCall) {s : Port} (hs : s.tx.length ≤ fifoDepth)
    {c : Config Reg UInt32 Port (List UInt32)} (h : Steps (uart stale) ⟨serve calls, s⟩ c) :
    (c.state.line ++ c.state.tx <+: (answers calls (s.line ++ s.tx)).2) ∧
      (∀ rs, c.prog = .done rs → (rs, c.state.line ++ c.state.tx) = answers calls (s.line ++ s.tx)) ∧
      ∃ rs c', Steps (uart stale) c c' ∧ c'.prog = .done rs := by
  rw [serve_eq] at h
  obtain ⟨⟨k, -, hk⟩, hdone, hend⟩ := sendAll_in_order _ _ hs h
  refine ⟨?_, fun rs hc => ?_, hend⟩
  · rw [answers_eq]
    show c.state.out <+: _
    rw [hk]
    exact (List.prefix_append_right_inj _).mpr (List.take_prefix ..)
  · obtain ⟨rfl, -, hout⟩ := hdone rs hc
    rw [List.take_length] at hout
    rw [answers_eq, answers_eq]
    exact congrArg (Prod.mk _) hout

/-- The stacked registers at 0x100, and `ok` at 0x200. -/
def writeOk : Mem := fun a =>
  if a = 0x105 then 2 else if a = 0x108 then 2 else if a = 0x200 then 0x6F else if a = 0x201 then 0x6B else 0

/-- A call with an unknown number and one that writes `ok`. -/
theorem calls_in_order_ok :
    let calls : List SysCall := [⟨writeOk, 0x100, 7, fun _ => 0x55, fun _ => 0x55⟩,
      ⟨writeOk, 0x100, 1, fun _ => 0x55, fun _ => 0x55⟩]
    ∃ s', Steps (uart 0) ⟨serve calls, ⟨[], [], [], []⟩⟩ ⟨.done [0xFFFFFFFE, 2], s'⟩ ∧
      s'.line ++ s'.tx = text "Unknown syscall number: 7\r\nok" := by
  intro calls
  let s : Port := ⟨[], [], [], []⟩
  have hs : s.tx.length ≤ fifoDepth := Nat.zero_le 32
  obtain ⟨rs, ⟨_, s'⟩, hsteps, rfl⟩ := (calls_in_order 0 calls hs .refl).2.2
  have hdone := (calls_in_order 0 calls hs hsteps).2.1 rs rfl
  have hanswers : answers calls [] = ([0xFFFFFFFE, 2], text "Unknown syscall number: 7\r\nok") := by decide +kernel
  obtain ⟨rfl, hline⟩ := Prod.mk.inj (hdone.trans hanswers)
  exact ⟨s', hsteps, hline⟩

end OpenGpos.Kernel.Console
