/-
  OpenGpos.Fat.Volume — the state of src/driver/fs/FAT32.c, the two SD reads it makes, and
  the mount (`parseMBR`, `parseBPB`, `fat32Init`).

  `Env` is what the driver cannot change: the card's blocks, which SD commands fail (by
  the number of the command since start), what a failed read leaves in the buffer, and
  what each call of `fat_read_next_dir_entry` finds in its uninitialised locals. Bytes 512
  and up of a block are what the card clocks out behind it.

  A run halts on what C leaves undefined here: a division by zero, an index outside the
  object it is for; `spin` is a loop that ran out of fuel.
-/
import OpenGpos.Lib.Bytes

namespace OpenGpos.Fat

open OpenGpos.Lib.Bytes

abbrev Buf := Nat → UInt8

inductive Halt where
  | divZero
  | oob
  | spin
  deriving DecidableEq, Repr

/-- `fat_error_t`, and the one other value that comes back as such: `getNextCluster`
    returns the number `FAT32_BAD_CLUSTER`. -/
inductive FatError where
  | success
  | readFail
  | invalidCluster
  | badFatEntry
  | endOfChain
  | notInitialized
  | noMoreEntries
  | fileNotFound
  | badCluster
  deriving DecidableEq, Repr

/-- `fat32_volume_info_t`. -/
structure VolumeInfo where
  volumeStartLba : UInt32
  bytesPerSector : UInt16
  sectorsPerCluster : UInt8
  reservedSectorCount : UInt16
  numFats : UInt8
  fatSizeSectors : UInt32
  rootDirCluster : UInt32
  totalSectors : UInt32
  totalClusters : UInt32
  firstFatLba : UInt32
  dataStartLba : UInt32
  isInitialized : Bool
  fsinfoSectorLba : UInt16
  backupBootSectorLba : UInt16
  bytesPerCluster : UInt32
  deriving DecidableEq, Repr, Inhabited

/-- `file_handle_t`. -/
structure FileHandle where
  clusterStart : UInt32
  currentCluster : UInt32
  currentOffset : UInt32
  fileSize : UInt32
  currentFilePos : UInt32
  isFree : Bool
  mode : UInt8
  deriving DecidableEq, Repr, Inhabited

/-- An index below `MAX_OPEN_FILES`. -/
abbrev Slot := Fin 16

/-- The locals of `fat_read_next_dir_entry` that live across the turns of its loop:
    `lfn_buffer`, rows of 40 bytes one after the other, and `lfn_parts_found`. -/
structure LfnLocals where
  buffer : Buf
  partsFound : UInt8

structure Env where
  block : UInt32 → Nat → UInt8
  fails : Nat → Bool
  junk : Nat → Nat → UInt8 → UInt8
  stack : Nat → LfnLocals

/-- An SD read with the arguments it was called with. -/
inductive SdCall where
  | readBlock (block : UInt32)
  | readPartialBlock (block offset length : UInt32)
  deriving DecidableEq, Repr

/-- The block address of a read. -/
def SdCall.lba : SdCall → UInt32
  | .readBlock block => block
  | .readPartialBlock block _ _ => block

structure World where
  vol : VolumeInfo
  handles : Slot → FileHandle
  /-- The SD reads so far, the last one first. -/
  calls : List SdCall
  /-- Calls of `fat_read_next_dir_entry` so far. -/
  frames : Nat

/-- At power-up the statics are zero. -/
def World.boot : World := ⟨default, fun _ => default, [], 0⟩

/-- A card that never fails, given by its bytes that are not 0: block, index, byte. -/
def card (bytes : List (UInt32 × Nat × UInt8)) : Env where
  block lba i := ((bytes.find? fun b => b.1 == lba && b.2.1 == i).map (·.2.2)).getD 0
  fails _ := false
  junk _ _ old := old
  stack _ := ⟨fun _ => 0, 0⟩

abbrev FatM := StateT World (Except Halt)

def halt {α : Type} (h : Halt) : FatM α := fun _ => .error h

section
variable {α β : Type}

@[simp] theorem bind_apply (x : FatM α) (f : α → FatM β) (w : World) :
    (x >>= f) w = (x w).bind fun r => f r.1 r.2 := rfl
@[simp] theorem pure_apply (a : α) (w : World) : (pure a : FatM α) w = .ok (a, w) := rfl
@[simp] theorem map_apply (f : α → β) (x : FatM α) (w : World) :
    (f <$> x) w = (x w).bind fun r => .ok (f r.1, r.2) := rfl
@[simp] theorem get_apply (w : World) : (get : FatM World) w = .ok (w, w) := rfl
@[simp] theorem modify_apply (f : World → World) (w : World) : (modify f : FatM PUnit) w = .ok ((), f w) := rfl
@[simp] theorem halt_apply (h : Halt) (w : World) : (halt h : FatM α) w = .error h := rfl
@[simp] theorem ok_bind {ε : Type} (a : α) (f : α → Except ε β) : (Except.ok a : Except ε α).bind f = f a := rfl
@[simp] theorem error_bind {ε : Type} (e : ε) (f : α → Except ε β) : (Except.error e : Except ε α).bind f = .error e := rfl

end

/-- What a computation returns, and the state it leaves. -/
def answer {α : Type} : Except Halt (α × World) → Option α
  | .ok r => some r.1
  | .error _ => none

def after {α : Type} : Except Halt (α × World) → World
  | .ok r => r.2
  | .error _ => World.boot

theorem answer_some {α : Type} {x : Except Halt (α × World)} {a : α} (h : answer x = some a) : x = .ok (a, after x) := by
  cases x with
  | error _ => cases h
  | ok r => cases h; rfl

/-! ## SD reads -/

/-- `f` written to `[dst, dst + n)`. -/
def blit (buf : Buf) (dst n : Nat) (f : Nat → UInt8) : Buf :=
  fun i => if dst ≤ i ∧ i < dst + n then f (i - dst) else buf i

/-- One SD read into `[dst, dst + n)` of `buf`; `data` is what the card sends. -/
def sdRead (env : Env) (call : SdCall) (buf : Buf) (dst n : Nat) (data : Nat → UInt8) : FatM (Bool × Buf) := fun w =>
  let w' := { w with calls := call :: w.calls }
  if env.fails w.calls.length then .ok ((false, blit buf dst n fun i => env.junk w.calls.length i (buf (dst + i))), w')
  else .ok ((true, blit buf dst n data), w')

theorem sdRead_fail {env : Env} {w : World} (hf : env.fails w.calls.length = true) (call : SdCall) (buf : Buf)
    (dst n : Nat) (data : Nat → UInt8) : sdRead env call buf dst n data w =
      .ok ((false, blit buf dst n fun i => env.junk w.calls.length i (buf (dst + i))),
        { w with calls := call :: w.calls }) := by
  simp [sdRead, hf]

theorem sdRead_ok {env : Env} {w : World} (hf : env.fails w.calls.length = false) (call : SdCall) (buf : Buf)
    (dst n : Nat) (data : Nat → UInt8) :
    sdRead env call buf dst n data w = .ok ((true, blit buf dst n data), { w with calls := call :: w.calls }) := by
  simp [sdRead, hf]

def sdReadBlock (env : Env) (blockAddress : UInt32) (dataBuffer : Buf) : FatM (Bool × Buf) :=
  sdRead env (.readBlock blockAddress) dataBuffer 0 512 (env.block blockAddress)

/-- The parameters `offset` and `length` are 16 bits wide: the caller's values are cut to
    that. `dst` is where in `buffer` the caller's pointer is. -/
def sdReadPartialBlock (env : Env) (blockNumber offset : UInt32) (buffer : Buf) (dst : Nat) (length : UInt32) :
    FatM (Bool × Buf) :=
  sdRead env (.readPartialBlock blockNumber offset length) buffer dst length.toUInt16.toNat
    fun i => env.block blockNumber (offset.toUInt16.toNat + i)

/-! ## Mount -/

def readLe32 (data : Buf) (offset : Nat) : UInt32 :=
  (data offset).toUInt32 ||| ((data (offset + 1)).toUInt32 <<< 8) ||| ((data (offset + 2)).toUInt32 <<< 16) |||
    ((data (offset + 3)).toUInt32 <<< 24)

def readLe16 (data : Buf) (offset : Nat) : UInt16 := (data offset).toUInt16 ||| ((data (offset + 1)).toUInt16 <<< 8)

theorem readLe32_toNat (data : Buf) (offset : Nat) : (readLe32 data offset).toNat = load32 data offset := by
  have h0 := (data offset).toNat_lt
  have h1 := (data (offset + 1)).toNat_lt
  have h2 := (data (offset + 2)).toNat_lt
  have h3 := (data (offset + 3)).toNat_lt
  unfold readLe32 load32
  simp only [UInt32.toNat_or, UInt32.toNat_shiftLeft, UInt8.toNat_toUInt32, UInt32.toNat_ofNat]
  rw [show 8 % 2 ^ 32 % 32 = 8 from rfl, show 16 % 2 ^ 32 % 32 = 16 from rfl, show 24 % 2 ^ 32 % 32 = 24 from rfl,
    byte_shift h1 (by decide), byte_shift h2 (by decide), byte_shift h3 (by decide), or_shift h0,
    or_shift (show (data offset).toNat + 2 ^ 8 * (data (offset + 1)).toNat < 2 ^ 16 by omega), or_shift (by omega)]

theorem readLe16_toNat (data : Buf) (offset : Nat) : (readLe16 data offset).toNat = load16 data offset := by
  have h0 := (data offset).toNat_lt
  have h1 := (data (offset + 1)).toNat_lt
  have hlt : (data (offset + 1)).toNat <<< 8 < 2 ^ 16 := by
    rw [Nat.shiftLeft_eq]
    omega
  unfold readLe16 load16
  simp only [UInt16.toNat_or, UInt16.toNat_shiftLeft, UInt8.toNat_toUInt16, UInt16.toNat_ofNat]
  rw [show 8 % 2 ^ 16 % 16 = 8 from rfl, Nat.mod_eq_of_lt hlt, or_shift h0]

/-- An active partition of type FAT32. -/
def isFat32Partition (mbrBuffer : Buf) (i : Nat) : Bool :=
  mbrBuffer (i * 16) &&& 0x80 != 0 && (mbrBuffer (i * 16 + 4) == 0x0B || mbrBuffer (i * 16 + 4) == 0x0C)

def parseMBR (env : Env) : FatM Bool := do
  let (ok, mbrBuffer) ← sdReadPartialBlock env 0 446 (fun _ => 0) 0 66
  if !ok then return false
  else if readLe16 mbrBuffer 64 ≠ 0xAA55 then return false
  else
    match [0, 1, 2, 3].find? (isFat32Partition mbrBuffer) with
    | some i =>
      modify fun w => { w with vol := { w.vol with
        totalSectors := readLe32 mbrBuffer (i * 16 + 12)
        volumeStartLba := readLe32 mbrBuffer (i * 16 + 8) } }
      return true
    | none => return false

/-- The fields that are copied from the boot sector, and the sums and products of them. -/
def bpbFields (v : VolumeInfo) (bpbData : Buf) : VolumeInfo :=
  let bytesPerSector := readLe16 bpbData 0
  let sectorsPerCluster := bpbData 0x02
  let reservedSectorCount := readLe16 bpbData 0x03
  let numFats := bpbData 0x05
  let fatSizeSectors := readLe32 bpbData 25
  let firstFatLba := v.volumeStartLba + reservedSectorCount.toUInt32
  { v with
    bytesPerSector, sectorsPerCluster, reservedSectorCount, numFats, fatSizeSectors
    rootDirCluster := readLe32 bpbData 33
    fsinfoSectorLba := readLe16 bpbData 37
    backupBootSectorLba := readLe16 bpbData 39
    firstFatLba
    dataStartLba := firstFatLba + numFats.toUInt32 * fatSizeSectors
    bytesPerCluster := sectorsPerCluster.toUInt32 * bytesPerSector.toUInt32 }

def parseBPB (env : Env) : FatM Bool := do
  let (ok, bpbData) ← sdReadPartialBlock env (← get).vol.volumeStartLba 0x0B (fun _ => 0) 0 41
  if !ok then return false
  else
    let v := bpbFields (← get).vol bpbData
    let dataSectors := v.totalSectors - (v.reservedSectorCount.toUInt32 + v.numFats.toUInt32 * v.fatSizeSectors)
    if v.sectorsPerCluster = 0 then halt .divZero
    else
      modify fun w => { w with vol := { v with
        totalClusters := dataSectors / v.sectorsPerCluster.toUInt32
        isInitialized := true } }
      return true

def fat32Init (env : Env) : FatM Bool := do
  if !(← parseMBR env) then return false
  else if !(← parseBPB env) then return false
  else
    modify fun w => { w with handles := fun i => { w.handles i with isFree := true } }
    return true

end OpenGpos.Fat
