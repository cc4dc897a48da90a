/-
  OpenGpos.Kernel.Loader — loadELF of src/lib/elf/elf.c and kernel_main. The file is read into
  a block of the heap, and the segments are copied from there to their addresses, which are
  addresses of the same memory. Nothing that fails before is reported but in the value that
  is also the entry point, and kernel_main jumps to it.

  The kernel's statics, the file handles among them, are apart from `heap.mem`, and so is the
  stack; `written` keeps the ranges that were written as segment memory.
-/
import OpenGpos.Fat.File
import OpenGpos.Libc.Heap
import OpenGpos.Kernel.Startup

namespace OpenGpos.Kernel

open OpenGpos.Lib.Bytes OpenGpos.Fat
open OpenGpos.Libc.Heap (HeapM Region u32 initMalloc malloc free)
open OpenGpos.Kernel.Startup (memset)

/-- What stops a run: C leaves it undefined or a loop of the driver does not end, or the walk
    of the allocator does not. -/
inductive Stop where
  | fat (h : Halt)
  | heap
  deriving DecidableEq, Repr

structure Machine where
  fat : World
  heap : Libc.Heap.St
  /-- Ranges of segment memory: the address, and how many bytes from there. -/
  written : List (Nat × Nat)

abbrev KernelM := StateT Machine (Except Stop)

def onFat {α : Type} (x : FatM α) : KernelM α := fun k =>
  match x k.fat with
  | .ok (a, w) => .ok (a, { k with fat := w })
  | .error h => .error (.fat h)

def onHeap {α : Type} (x : HeapM α) : KernelM α := fun k =>
  match x k.heap with
  | some (a, h) => .ok (a, { k with heap := h })
  | none => .error .heap

/-- The bytes from `data` on. -/
def Machine.bytesAt (k : Machine) (data : Nat) : Buf := fun i => k.heap.mem (data + i)

/-- The memory with `buf` from `data` on. -/
def Machine.putBytes (k : Machine) (data : Nat) (buf : Buf) : Machine :=
  { k with heap := { k.heap with mem := fun a => if data ≤ a then buf (a - data) else k.heap.mem a } }

theorem putBytes_from {k : Machine} {data a : Nat} {buf : Buf} (h : data ≤ a) : (k.putBytes data buf).heap.mem a = buf (a - data) :=
  if_pos h

theorem putBytes_below {k : Machine} {data a : Nat} {buf : Buf} (h : a < data) : (k.putBytes data buf).heap.mem a = k.heap.mem a :=
  if_neg (Nat.not_le.mpr h)

/-! ## Reading the file -/

/-- `fat32_read` with a pointer into the memory. -/
def fat32ReadTo (env : Env) (fileId : UInt32) (data : Nat) (size : UInt32) : KernelM Bool := fun k =>
  match fat32Read env fileId (some (k.bytesAt data)) size k.fat with
  | .ok ((ok, buffer), w) => .ok (ok, { (k.putBytes data (buffer.getD (k.bytesAt data))) with fat := w })
  | .error h => .error (.fat h)

/-- What loadELF does up to the checks of the header: where the file is in memory (0 for
    NULL), and what fat32_read returned. -/
def readFile (env : Env) (fuel : Nat) (path : List UInt8) : KernelM (Nat × Bool) := do
  let fileId ← onFat (fat32Open env fuel path 0)
  let size ← onFat (fat32GetSize fileId)
  let data ← onHeap (malloc size)
  if data = 0 then return (0, false)
  else
    let ok ← fat32ReadTo env fileId data size
    return (data, ok)

/-! ## The image -/

/-- The checks of the header, in their order: is it refused? -/
def invalidExecutable (data : Buf) : Bool :=
  if data 0x00 ≠ 0x7F ∨ data 1 ≠ 0x45 ∨ data 2 ≠ 0x4C ∨ data 3 ≠ 0x46 then true
  else if data 0x04 = 2 then true
  else if data 0x05 = 2 then true
  else if data 0x10 ≠ 0x02 then true
  else decide (data 0x12 ≠ 0x28)

structure ProgramHeader where
  pType : UInt32
  pOffset : UInt32
  pVaddr : UInt32
  pFilesz : UInt32
  pMemsz : UInt32
  deriving DecidableEq, Repr

/-- The parameter `offset` of read_le32 is 16 bits wide. -/
def readField (data : Buf) (offset : UInt32) : UInt32 := readLe32 data offset.toUInt16.toNat

def readHeader (data : Buf) (offset : UInt32) : ProgramHeader where
  pType := readField data offset
  pOffset := readField data (offset + 0x04)
  pVaddr := readField data (offset + 0x08)
  pFilesz := readField data (offset + 0x10)
  pMemsz := readField data (offset + 0x14)

/-- What a PT_LOAD header makes of the memory: the DMA is out of reset by now, and copies. -/
def copySegment (m : Mem) (data : Nat) (h : ProgramHeader) : Mem :=
  let m := copy m h.pVaddr.toNat (u32 (data + h.pOffset.toNat)) h.pFilesz.toNat
  if h.pFilesz < h.pMemsz then memset m (h.pVaddr + h.pFilesz) 0 (h.pMemsz - h.pFilesz) else m

/-- One turn of the loop. -/
def loadSegment (data : Nat) (offset : UInt32) (k : Machine) : Machine :=
  let h := readHeader (k.bytesAt data) offset
  if h.pType ≠ 1 then k
  else { k with
    heap := { k.heap with mem := copySegment k.heap.mem data h }
    written := (h.pVaddr.toNat, max h.pFilesz.toNat h.pMemsz.toNat) :: k.written }

/-- The first `n` turns of the loop. -/
def loadSegments (data : Nat) (ePhoff ePhentsize : UInt32) : Nat → Machine → Machine
  | 0, k => k
  | n + 1, k =>
    loadSegment data (ePhoff + (UInt16.ofNat n).toUInt32 * ePhentsize) (loadSegments data ePhoff ePhentsize n k)

/-- `ELF_INVALID_EXECUTABLE`. -/
def elfInvalidExecutable : UInt32 := 1

def loadELF (env : Env) (fuel : Nat) (path : List UInt8) : KernelM UInt32 := do
  -- what fat32_read returned is not looked at
  let (data, _) ← readFile env fuel path
  if data = 0 then return 2
  else
    let d := (← get).bytesAt data
    if invalidExecutable d then return elfInvalidExecutable
    else
      let eEntry := readField d 0x18
      let ePhoff := readField d 0x1C
      let ePhentsize := (readLe16 d 0x2A).toUInt32
      let ePhnum := readLe16 d 0x2C
      modify (loadSegments data ePhoff ePhentsize ePhnum.toNat)
      onHeap (free data)
      return eEntry

/-! ## kernel_main -/

/-- From the initialised card to the call of loadELF. The result of fat32_init is not looked at. -/
def prepare (env : Env) (r : Region) : KernelM Unit := do
  onHeap (initMalloc r)
  let _ ← onFat (fat32Init env)
  return ()

/-- The address kernel_main calls, if it calls one. `sdReady` is the result of SDInit; the
    clocks, the UART and the SPI have no part in it. -/
def kernelMainAt (path : List UInt8) (env : Env) (fuel : Nat) (r : Region) (sdReady : Bool) : KernelM (Option UInt32) := do
  if !sdReady then return none
  else
    prepare env r
    let entry ← loadELF env fuel path
    return some entry

/-- `"/bin/init.elf"` -/
def initPath : List UInt8 := [0x2F, 0x62, 0x69, 0x6E, 0x2F, 0x69, 0x6E, 0x69, 0x74, 0x2E, 0x65, 0x6C, 0x66]

def kernelMain : Env → Nat → Region → Bool → KernelM (Option UInt32) := kernelMainAt initPath

/-! ## Running the monad -/

section
variable {α β : Type} {k k' : Machine}

@[simp] theorem bind_apply (x : KernelM α) (f : α → KernelM β) (k : Machine) :
    (x >>= f) k = (x k).bind fun r => f r.1 r.2 := rfl
@[simp] theorem pure_apply (a : α) (k : Machine) : (pure a : KernelM α) k = .ok (a, k) := rfl
@[simp] theorem get_apply (k : Machine) : (get : KernelM Machine) k = .ok (k, k) := rfl
@[simp] theorem modify_apply (f : Machine → Machine) (k : Machine) : (modify f : KernelM PUnit) k = .ok ((), f k) := rfl

theorem onHeap_ok {x : HeapM α} {a : α} {h : Libc.Heap.St} (e : x k.heap = some (a, h)) :
    onHeap x k = .ok (a, { k with heap := h }) := by
  unfold onHeap
  rw [e]

theorem bind_inv {x : KernelM α} {f : α → KernelM β} {b : β} (h : (x >>= f) k = .ok (b, k')) :
    ∃ a k1, x k = .ok (a, k1) ∧ f a k1 = .ok (b, k') := by
  rw [bind_apply] at h
  cases hx : x k with
  | error e =>
    rw [hx] at h
    cases h
  | ok r =>
    rw [hx] at h
    exact ⟨r.1, r.2, rfl, h⟩

theorem onFat_inv {x : FatM α} {a : α} (h : onFat x k = .ok (a, k')) : ∃ w, x k.fat = .ok (a, w) ∧ k' = { k with fat := w } := by
  unfold onFat at h
  cases hx : x k.fat with
  | error e =>
    rw [hx] at h
    cases h
  | ok r =>
    rw [hx] at h
    cases h
    exact ⟨r.2, rfl, rfl⟩

theorem onHeap_inv {x : HeapM α} {a : α} (e : onHeap x k = .ok (a, k')) :
    ∃ h, x k.heap = some (a, h) ∧ k' = { k with heap := h } := by
  unfold onHeap at e
  cases hx : x k.heap with
  | none =>
    rw [hx] at e
    cases e
  | some r =>
    rw [hx] at e
    cases e
    exact ⟨r.2, rfl, rfl⟩

theorem fat32ReadTo_inv {env : Env} {id size : UInt32} {data : Nat} {ok : Bool} (h : fat32ReadTo env id data size k = .ok (ok, k')) :
    ∃ buffer w, fat32Read env id (some (k.bytesAt data)) size k.fat = .ok ((ok, buffer), w) ∧
      k' = { (k.putBytes data (buffer.getD (k.bytesAt data))) with fat := w } := by
  unfold fat32ReadTo at h
  cases hx : fat32Read env id (some (k.bytesAt data)) size k.fat with
  | error e =>
    rw [hx] at h
    cases h
  | ok r =>
    rw [hx] at h
    cases h
    exact ⟨r.1.2, r.2, rfl, rfl⟩

end

end OpenGpos.Kernel
