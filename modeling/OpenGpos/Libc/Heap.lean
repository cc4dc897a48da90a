/-
  OpenGpos.Libc.Heap — the allocator of libc/src/stdlib/heap.c. Its block headers live
  in the same memory as the payloads: a `memory_space_t` is 16 bytes (`prev`, `next`,
  `size`, a one-byte `isAllocated` and padding) right before the payload. Pointers and
  sizes are 32-bit: natural numbers, with `u32` where the C arithmetic wraps.

  `none` is a call that never returns. Only the walk of `find_free_space` can loop: it
  changes nothing and `curr` is a 32-bit pointer, so a walk of more than 2^32 steps has
  come back to a block it left and goes on forever; `2 ^ 32` steps decide it.

  `reads` keeps the byte ranges read as header fields since a call began.
-/
import OpenGpos.Lib.Bytes

namespace OpenGpos.Libc.Heap

open OpenGpos.Lib.Bytes

def u32 (x : Nat) : Nat := x % 2 ^ 32

/-- Subtraction of `size_t`s. -/
def sub32 (a b : Nat) : Nat := (a + (2 ^ 32 - b % 2 ^ 32)) % 2 ^ 32

/-- `ALIGN_4BYTE`: `& -4` clears the two low bits. -/
def align4 (x : Nat) : Nat := u32 (x + 3) / 4 * 4

/-- Where linker.ld puts the heap: `__heap_start__` is the end of .bss. -/
structure Region where
  heapStart : Nat
  nonNull : 0 < heapStart
  fits : heapStart + 0x8000 < 2 ^ 32

/-- `__heap_end__`. -/
def Region.heapEnd (r : Region) : Nat := r.heapStart + 0x8000

/-- `__heap_size__`. -/
def Region.heapSize (r : Region) : Nat := sub32 r.heapEnd (align4 r.heapStart)

structure St where
  mem : Mem
  head : Nat
  reads : List (Nat × Nat)

abbrev HeapM := StateT St Option

/-! ## Header fields -/

def St.see (h : St) (a n : Nat) : St := { h with reads := (a, n) :: h.reads }

def getPrev (p : Nat) : HeapM Nat := fun h => some (load32 h.mem p, h.see p 4)
def getNext (p : Nat) : HeapM Nat := fun h => some (load32 h.mem (p + 4), h.see (p + 4) 4)
def getSize (p : Nat) : HeapM Nat := fun h => some (load32 h.mem (p + 8), h.see (p + 8) 4)
def getIsAllocated (p : Nat) : HeapM Bool := fun h => some (h.mem (p + 12) != 0, h.see (p + 12) 1)

def setPrev (p v : Nat) : HeapM Unit := fun h => some ((), { h with mem := store32 h.mem p v })
def setNext (p v : Nat) : HeapM Unit := fun h => some ((), { h with mem := store32 h.mem (p + 4) v })
def setSize (p v : Nat) : HeapM Unit := fun h => some ((), { h with mem := store32 h.mem (p + 8) v })
def setIsAllocated (p : Nat) (v : Bool) : HeapM Unit := fun h =>
  some ((), { h with mem := store8 h.mem (p + 12) (if v then 1 else 0) })

/-! ## Helpers -/

/-- The condition of the walk: `curr->next && (curr->isAllocated || curr->size < size)`. -/
def skips (curr size : Nat) : HeapM Bool := do
  if (← getNext curr) = 0 then return false
  else if ← getIsAllocated curr then return true
  else return decide ((← getSize curr) < size)

def findLoop (size : Nat) : Nat → Nat → HeapM Nat
  | 0, _ => fun _ => none
  | k + 1, curr => do
    if ← skips curr size then findLoop size k (← getNext curr) else return curr

def findFreeSpace (size : Nat) : HeapM Nat := do
  let curr ← findLoop size (2 ^ 32) (← get).head
  if (← getSize curr) < size then return 0
  else if ← getIsAllocated curr then return 0
  else return curr

def mergeNextMemorySpace (memorySpace : Nat) : HeapM Bool := do
  let next ← getNext memorySpace
  if next = 0 then return false
  else if ← getIsAllocated next then return false
  else
    let nextEr ← getNext next
    if nextEr ≠ 0 then setPrev nextEr memorySpace
    setNext memorySpace nextEr
    setSize memorySpace (u32 ((← getSize memorySpace) + u32 (16 + (← getSize next))))
    return true

def splitMemorySpace (memorySpace size : Nat) : HeapM Bool := do
  if u32 (u32 (size + 16) + 4) < (← getSize memorySpace) then
    let next := u32 (u32 (memorySpace + 16) + size)
    setPrev next memorySpace
    setNext next (← getNext memorySpace)
    setSize next (sub32 (sub32 (← getSize memorySpace) size) 16)
    setIsAllocated next false
    setNext memorySpace next
    setSize memorySpace size
    -- the old successor's prev is not touched here
    let _ ← mergeNextMemorySpace next
    return true
  else return false

/-! ## The heap functions -/

def initMalloc (r : Region) : HeapM Unit := do
  modify fun h => { h with head := align4 r.heapStart }
  let head := (← get).head
  setPrev head 0
  setNext head 0
  setSize head (sub32 r.heapSize 16)
  setIsAllocated head false

def malloc (size : UInt32) : HeapM Nat := do
  let size := align4 size.toNat
  let freeSpace ← findFreeSpace size
  if freeSpace = 0 then return 0
  else
    let _ ← splitMemorySpace freeSpace size
    setIsAllocated freeSpace true
    return u32 (freeSpace + 16)

def free (ptr : Nat) : HeapM Unit := do
  if ptr = 0 then return ()
  else
    let memorySpace := sub32 ptr 16
    setIsAllocated memorySpace false
    let _ ← mergeNextMemorySpace memorySpace
    let prev ← getPrev memorySpace
    if prev = 0 then return ()
    else if ← getIsAllocated prev then return ()
    else
      let _ ← mergeNextMemorySpace prev
      return ()

/-- The copy of `memcpy`: the DMA channel moves `num` bytes, one at a time, upwards. -/
def memcpy (destination source num : Nat) : HeapM Unit := fun h =>
  some ((), { h with mem := copy h.mem destination source num })

def realloc (ptr : Nat) (size : UInt32) : HeapM Nat := do
  let oldSize ← getSize (sub32 ptr 16)
  let new ← malloc size
  if new = 0 then return 0
  else
    let toCopy := if oldSize < size.toNat then oldSize else size.toNat
    memcpy new ptr toCopy
    free ptr
    return new

/-! ## A client -/

inductive Op where
  | malloc (size : UInt32)
  | free (ptr : Nat)
  | realloc (ptr : Nat) (size : UInt32)
  | write (addr : Nat) (v : UInt8)
  deriving DecidableEq, Repr

/-- The heap and the live allocations: each pointer handed out and not yet freed, with
    the size of the block behind it. -/
structure Client where
  heap : St
  live : List (Nat × Nat)

def Client.isLive (c : Client) (ptr : Nat) : Bool := c.live.any (·.1 == ptr)

/-- What a client may do: free or resize a live pointer (or free NULL), and write inside
    the payload of a live allocation. -/
def allowed (c : Client) : Op → Bool
  | .malloc _ => true
  | .free ptr => ptr == 0 || c.isLive ptr
  | .realloc ptr _ => c.isLive ptr
  | .write addr _ => c.live.any fun a => decide (a.1 ≤ addr) && decide (addr < a.1 + a.2)

def grant (live : List (Nat × Nat)) (ptr : Nat) (h : St) : List (Nat × Nat) :=
  if ptr = 0 then live else (ptr, load32 h.mem (ptr - 8)) :: live

def call (c : Client) : Op → Option Client
  | .malloc size => do
    let (ptr, h) ← malloc size { c.heap with reads := [] }
    return ⟨h, grant c.live ptr h⟩
  | .free ptr => do
    let (_, h) ← free ptr { c.heap with reads := [] }
    return ⟨h, c.live.filter (·.1 != ptr)⟩
  | .realloc ptr size => do
    let (new, h) ← realloc ptr size { c.heap with reads := [] }
    return ⟨h, if new = 0 then c.live else grant (c.live.filter (·.1 != ptr)) new h⟩
  | .write addr v => some { c with heap := { c.heap with mem := store8 c.heap.mem addr v, reads := [] } }

def Step (c : Client) (op : Op) (c' : Client) : Prop := allowed c op = true ∧ call c op = some c'

/-- The client after `init_malloc` on memory `m`. -/
def start (r : Region) (m : Mem) : Option Client := do
  let (_, h) ← initMalloc r ⟨m, 0, []⟩
  return ⟨h, []⟩

end OpenGpos.Libc.Heap
