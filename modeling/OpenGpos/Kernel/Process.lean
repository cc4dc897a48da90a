/-
  OpenGpos.Kernel.Process — the process table of kernel/process.c. A slot is free when its pid is
  the marker 255, which is what `-1` becomes in a `uint8_t`; the search for a free slot compares the
  promoted pid with the `int` -1 and never finds one (`findFree_none`). So every `create_process`
  fails with all slots free, and a run keeps the contract of the table exactly if it makes no such
  call (`table_contract_iff`).
-/
import OpenGpos.Lib.Runs

namespace OpenGpos.Kernel.Process

open OpenGpos.Lib.Runs

inductive ProcessState where
  | new
  | ready
  | running
  | waiting
  | term
  deriving DecidableEq

def maxProcesses : Nat := 8

/-- `pcb_t`. -/
structure Pcb where
  pid : UInt8
  state : ProcessState
  pc : UInt32
  registers : Fin 14 → Int32
  burstTime : UInt32
  timeRemaining : UInt32

abbrev Slot := Fin 8

/-- The globals of process.c that the two functions use. -/
structure Scheduler where
  processTable : Slot → Pcb
  numProcesses : UInt8
  nextAvailablePid : UInt8

/-- The marker of a free slot: -1 stored in a `uint8_t`. -/
def freeMarker : UInt8 := 255

/-- Before the first call. -/
def Scheduler.boot : Scheduler := ⟨fun _ => ⟨0, .new, 0, fun _ => 0, 0, 0⟩, 0, 200⟩

def initScheduler (s : Scheduler) : Scheduler :=
  { s with processTable := fun _ => ⟨freeMarker, .new, 0, fun _ => 0, 0, 0⟩ }

/-- `process_table[i].pid == -1`: the pid is promoted to `int`. -/
def pidIsMinusOne (pcb : Pcb) : Bool := (pcb.pid.toNat : Int) == -1

/-- The loop for `idx`. -/
def findFree (s : Scheduler) : Option Slot := (List.finRange 8).find? fun i => pidIsMinusOne (s.processTable i)

def setSlot (s : Scheduler) (idx : Slot) (pcb : Pcb) : Scheduler :=
  { s with processTable := fun i => if i = idx then pcb else s.processTable i }

/-- The value is `none` where the code returns without one. The argument `pid` is not used. -/
def createProcess (_pid : UInt8) (burstTime : UInt32) (s : Scheduler) : Option Int × Scheduler :=
  if maxProcesses ≤ s.numProcesses.toNat then (none, s)
  else
    match findFree s with
    | none => (some (-1), s)
    | some idx =>
      let pid := s.nextAvailablePid
      (some pid.toNat, { setSlot s idx ⟨pid, .ready, 0, fun _ => 0, burstTime, burstTime⟩ with
        nextAvailablePid := pid + 1
        numProcesses := s.numProcesses + 1 })

/-! ## Calls and what is asked of them -/

/-- A call, with what it returned. -/
inductive Call where
  | init
  | create (pid : UInt8) (burstTime : UInt32) (result : Option Int)

inductive Step : Scheduler → Call → Scheduler → Prop
  | init (s : Scheduler) : Step s .init (initScheduler s)
  | create {s s' : Scheduler} {pid : UInt8} {burstTime : UInt32} {result : Option Int} :
      createProcess pid burstTime s = (result, s') → Step s (.create pid burstTime result) s'

def Occupied (s : Scheduler) (i : Slot) : Prop := (s.processTable i).pid ≠ freeMarker

instance (s : Scheduler) (i : Slot) : Decidable (Occupied s i) := by unfold Occupied; infer_instance

/-- The three records of which slots are taken agree. -/
structure TableOk (s : Scheduler) : Prop where
  count : s.numProcesses.toNat = ((List.finRange 8).filter fun i => Occupied s i).length
  distinct : ∀ i j, Occupied s i → Occupied s j → (s.processTable i).pid = (s.processTable j).pid → i = j

/-- A call of `create_process` that succeeds has returned a pid. -/
def Succeeds (result : Option Int) : Prop := ∃ r, result = some r ∧ 0 ≤ r

/-- One free slot is filled, and no other changed. -/
def FillsOne (s s' : Scheduler) : Prop :=
  ∃ i, ¬ Occupied s i ∧ Occupied s' i ∧ ∀ j, j ≠ i → s'.processTable j = s.processTable j

/-- What is asked of a call and of the state it leaves. -/
def Contract (s : Scheduler) (l : Call) (s' : Scheduler) : Prop :=
  TableOk s' ∧
    match l with
    | .init => True
    | .create _ _ result => (Succeeds result ↔ ∃ i, ¬ Occupied s i) ∧ (Succeeds result → FillsOne s s')

/-! ## No slot is ever found free -/

theorem pidIsMinusOne_false (pcb : Pcb) : pidIsMinusOne pcb = false := by
  unfold pidIsMinusOne
  rw [beq_eq_false_iff_ne]
  omega

theorem findFree_none (s : Scheduler) : findFree s = none := by
  unfold findFree
  rw [List.find?_eq_none]
  intro i _
  rw [pidIsMinusOne_false]
  decide

/-- `create_process` changes nothing and returns no pid. -/
theorem createProcess_fails {pid : UInt8} {burstTime : UInt32} {s s' : Scheduler} {result : Option Int}
    (h : createProcess pid burstTime s = (result, s')) : s' = s ∧ ¬ Succeeds result := by
  unfold createProcess at h
  rw [findFree_none] at h
  by_cases hfull : maxProcesses ≤ s.numProcesses.toNat
  · rw [if_pos hfull] at h
    cases h
    refine ⟨rfl, ?_⟩
    rintro ⟨r, hr, -⟩
    cases hr
  · rw [if_neg hfull] at h
    cases h
    refine ⟨rfl, ?_⟩
    rintro ⟨r, hr, h0⟩
    cases hr
    exact absurd h0 (by decide)

/-! ## Runs -/

/-- What every state of a run from `init_scheduler` on is: an empty table, counted right. -/
structure AllFree (s : Scheduler) : Prop where
  free : ∀ i, ¬ Occupied s i
  count : s.numProcesses = 0

theorem AllFree.tableOk {s : Scheduler} (h : AllFree s) : TableOk s := by
  refine ⟨?_, fun i j hi _ _ => absurd hi (h.free i)⟩
  have hnil : ((List.finRange 8).filter fun i => Occupied s i) = [] := by
    rw [List.filter_eq_nil_iff]
    intro i _
    simpa using h.free i
  rw [hnil, h.count]
  rfl

theorem init_allFree {s : Scheduler} (h : s.numProcesses = 0) : AllFree (initScheduler s) :=
  ⟨fun _ hi => hi rfl, h⟩

/-- One call. -/
theorem step_allFree {s s' : Scheduler} {l : Call} (h : AllFree s) (hs : Step s l s') : AllFree s' := by
  cases hs with
  | init => exact init_allFree h.count
  | create e =>
    rw [(createProcess_fails e).1]
    exact h

/-- A call of `create_process` breaks the contract, and nothing else does. -/
theorem contract_iff {s s' : Scheduler} {l : Call} (h : AllFree s) (hs : Step s l s') : Contract s l s' ↔ l = .init := by
  have hok := (step_allFree h hs).tableOk
  cases hs with
  | init => exact iff_of_true ⟨hok, trivial⟩ rfl
  | create e =>
    refine iff_of_false ?_ (by simp)
    intro hc
    exact (createProcess_fails e).2 (hc.2.1.mpr ⟨0, h.free 0⟩)

/-- A run of calls that begins with `init_scheduler` keeps the contract at every step exactly if
    it never calls `create_process`. -/
theorem table_contract_iff {s : Scheduler} {ls : List Call} (h : Run Step .boot (.init :: ls) s) :
    Run (fun s l t => Step s l t ∧ Contract s l t) .boot (.init :: ls) s ↔ ∀ l ∈ ls, l = .init := by
  cases h with
  | cons h0 hr =>
    cases h0
    have he : AllFree (initScheduler .boot) := init_allFree rfl
    have hstep : ∀ s l t, AllFree s → Step s l t → (Contract s l t ↔ l = .init) ∧ AllFree t :=
      fun s l t hs h1 => ⟨contract_iff hs h1, step_allFree hs h1⟩
    rw [← hr.every_iff hstep he]
    constructor
    · intro hc
      cases hc with
      | cons h1 hc =>
        cases h1.1
        exact hc
    · intro hc
      exact .cons ⟨.init _, he.tableOk, trivial⟩ hc

/-- Two re-initialisations. -/
theorem table_contract_init : Run (fun s l t => Step s l t ∧ Contract s l t) .boot [.init, .init, .init]
    (initScheduler (initScheduler (initScheduler .boot))) :=
  (table_contract_iff (.cons (.init _) (.cons (.init _) (.cons (.init _) (.nil _))))).mpr (by simp)

/-- The first `create_process` returns -1, with all eight slots free. -/
theorem first_create_fails : Run Step .boot [.init, .create 7 5 (some (-1))] (initScheduler .boot) ∧
    (∀ i, ¬ Occupied (initScheduler .boot) i) ∧
    ¬ Contract (initScheduler .boot) (.create 7 5 (some (-1))) (initScheduler .boot) := by
  have hcreate : Step (initScheduler .boot) (.create 7 5 (some (-1))) (initScheduler .boot) := .create rfl
  have he : AllFree (initScheduler .boot) := init_allFree rfl
  refine ⟨.cons (.init _) (.cons hcreate (.nil _)), he.free, ?_⟩
  rw [contract_iff he hcreate]
  intro h
  cases h

end OpenGpos.Kernel.Process
