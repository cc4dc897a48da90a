/-
  OpenGpos.Fat.Dir — the directory iterator. `readDirLoop` is the `for (;;)` of
  `fat_read_next_dir_entry`: a turn refills the sector buffer if it has to (`loadSector`)
  and looks at one entry (`entryTurn`), which ends the call or starts the next turn.
-/
import OpenGpos.Fat.Cluster
import OpenGpos.Libc.Strings

namespace OpenGpos.Fat

open OpenGpos.Lib.Bytes OpenGpos.Libc.Strings

/-- `fat_directory_iterator_t`. -/
structure DirIter where
  currentCluster : UInt32
  currentSectorInCluster : UInt32
  currentEntryInSector : UInt16
  sectorBuffer : Buf
  sectorBufferValid : Bool
  lfnChecksum : UInt8

/-- `fat_file_info_t`. -/
structure FileInfo where
  filename : Buf
  firstCluster : UInt32
  fileSize : UInt32
  attributes : UInt8
  isDirectory : Bool

instance : Inhabited FileInfo := ⟨⟨fun _ => 0, 0, 0, 0, false⟩⟩
instance : Inhabited DirIter := ⟨⟨0, 0, 0, fun _ => 0, false, 0⟩⟩

def fatInitRootDirIterator (iter : DirIter) (startCluster : UInt32) : FatM (FatError × DirIter) := do
  if !(← get).vol.isInitialized then return (.notInitialized, iter)
  else
    return (.success, {
      currentCluster := startCluster
      currentSectorInCluster := 0xFFFFFFFF
      currentEntryInSector := 0
      sectorBuffer := fun _ => 0
      sectorBufferValid := false
      lfnChecksum := 0 })

/-- The iterator that it sets up. -/
def freshIter (startCluster : UInt32) : DirIter := ⟨startCluster, 0xFFFFFFFF, 0, fun _ => 0, false, 0⟩

theorem fatInitRootDirIterator_apply {w : World} (hi : w.vol.isInitialized = true) (iter : DirIter) (c : UInt32) :
    fatInitRootDirIterator iter c w = .ok ((.success, freshIter c), w) := by
  simp [fatInitRootDirIterator, hi, freshIter]

/-! ## Names -/

/-- The characters of an 8.3 name. -/
def sfnChars (sfnName : Buf) : List UInt8 :=
  ((List.range 8).map sfnName).takeWhile (· != 0x20) ++
    if sfnName 8 != 0x20 then 0x2E :: ((List.range 3).map fun j => sfnName (8 + j)).takeWhile (· != 0x20) else []

def fatSfnToString (sfnName outName : Buf) : Buf := putStr outName (sfnChars sfnName)

def fatSfnChecksum (sfnName : Buf) : UInt8 :=
  (List.range 11).foldl
    (fun (sum : UInt8) (i : Nat) => (if sum &&& 1 ≠ 0 then (0x80 : UInt8) else 0) + (sum >>> 1) + sfnName i) 0

/-- The loop of `fat_lfn_to_utf8` over the characters left, from `out_buffer + current_out_len`. -/
def lfnToUtf8Loop (dst maxLen : Nat) : List UInt16 → Buf → Nat → Buf × Nat
  | [], outBuffer, currentOutLen => (outBuffer, currentOutLen)
  | wc :: rest, outBuffer, currentOutLen =>
    if wc = 0x0000 ∨ wc = 0xFFFF then (outBuffer, currentOutLen)
    else if currentOutLen < maxLen - 1 then
      lfnToUtf8Loop dst maxLen rest (store8 outBuffer (dst + currentOutLen) (if wc < 0x80 then wc.toUInt8 else 0x3F))
        (currentOutLen + 1)
    else (outBuffer, currentOutLen)

/-- The characters of `copyLen` bytes at `utf16NamePart`, appended at `outBuffer + dst`; also
    how many they were. -/
def fatLfnToUtf8 (entry : Buf) (utf16NamePart copyLen : Nat) (outBuffer : Buf) (dst maxLen currentOutLen : Nat) : Buf × Nat :=
  let chars := (List.range (copyLen / 2)).map fun i => readLe16 entry (utf16NamePart + 2 * i)
  let (outBuffer, n) := lfnToUtf8Loop dst maxLen chars outBuffer currentOutLen
  (store8 outBuffer (dst + n) 0, n - currentOutLen)

/-- A long-name entry: its 13 characters go to the row of its number. The three name parts
    of the entry are at bytes 1, 14 and 28. -/
def lfnEntry (entry : Buf) (iter : DirIter) (l : LfnLocals) : DirIter × LfnLocals :=
  let orderFlags := entry 0
  let sequenceOrder := orderFlags &&& 0xBF
  if sequenceOrder = 0 ∨ 20 < sequenceOrder then ({ iter with lfnChecksum := 0 }, { l with partsFound := 0 })
  else if orderFlags &&& 0x40 = 0 ∧ iter.lfnChecksum = 0 then ({ iter with lfnChecksum := 0 }, { l with partsFound := 0 })
  else
    let iter := if orderFlags &&& 0x40 ≠ 0 then { iter with lfnChecksum := entry 13 } else iter
    let segmentDest := (sequenceOrder.toNat - 1) * 40
    let (buffer, n1) := fatLfnToUtf8 entry 1 10 l.buffer segmentDest 256 0
    let (buffer, n2) := fatLfnToUtf8 entry 14 12 buffer segmentDest 256 n1
    let (buffer, _) := fatLfnToUtf8 entry 28 4 buffer segmentDest 256 (n1 + n2)
    (iter, { buffer, partsFound := l.partsFound + 1 })

/-- The rows found, joined into `filename`. -/
def joinParts (l : LfnLocals) (filename : Buf) : Buf :=
  let filename := (List.range l.partsFound.toNat).foldl
    (fun (filename : Buf) (i : Nat) =>
      if l.buffer (i * 40) ≠ 0 then strncat filename 256 l.buffer (i * 40) (255 - strlen filename 0 256) else filename)
    (store8 filename 0 0)
  store8 filename 255 0

/-- A short entry: the name (the long one if its checksum fits) and the fields. -/
def sfnEntry (entry : Buf) (lfnChecksum : UInt8) (l : LfnLocals) (info : FileInfo) : FileInfo where
  filename :=
    if lfnChecksum ≠ 0 ∧ fatSfnChecksum entry = lfnChecksum then joinParts l info.filename
    else fatSfnToString entry info.filename
  firstCluster := ((readLe16 entry 20).toUInt32 <<< 16) ||| (readLe16 entry 26).toUInt32
  fileSize := readLe32 entry 28
  attributes := entry 11
  isDirectory := entry 11 &&& 0x10 != 0

/-! ## The iterator -/

/-- Where a turn of the loop leads: out, or on. -/
inductive Turn where
  | done (res : FatError) (iter : DirIter) (info : FileInfo)
  | again (iter : DirIter) (l : LfnLocals) (info : FileInfo)

/-- What one entry leads to. -/
def entryTurn (entry : Buf) (iter : DirIter) (l : LfnLocals) (info : FileInfo) : Turn :=
  if entry 0 = 0x00 then .done .noMoreEntries iter info
  else if entry 0 = 0xE5 then .again iter l info
  else if entry 11 &&& 0x0F = 0x0F then
    let (iter, l) := lfnEntry entry iter l
    .again iter l info
  else
    let info := sfnEntry entry iter.lfnChecksum l info
    let iter := { iter with lfnChecksum := 0 }
    if info.attributes &&& 0x08 ≠ 0 ∧ info.isDirectory = false then .again iter { l with partsFound := 0 } info
    else .done .success iter info

def readSector (env : Env) (iter : DirIter) : FatM (FatError × DirIter) := do
  let sectorLba := fatClusterToLba (← get).vol iter.currentCluster + iter.currentSectorInCluster
  let (ok, sectorBuffer) ← sdReadBlock env sectorLba iter.sectorBuffer
  if !ok then return (.readFail, { iter with sectorBuffer })
  else return (.success, { iter with sectorBuffer, sectorBufferValid := true })

/-- On to the next sector, of the next cluster if need be. -/
def loadSector (env : Env) (iter : DirIter) : FatM (FatError × DirIter) := do
  let iter := { iter with
    currentSectorInCluster := iter.currentSectorInCluster + 1
    currentEntryInSector := 0 }
  if (← get).vol.sectorsPerCluster.toUInt32 ≤ iter.currentSectorInCluster then
    let (fatRes, nextCluster) ← getNextCluster env iter.currentCluster
    if fatRes ≠ .success then return (fatRes, iter)
    else readSector env { iter with currentCluster := nextCluster, currentSectorInCluster := 0 }
  else readSector env iter

/-- The entry at the cursor, which must lie in the 512 bytes of the buffer. -/
def nextEntry (iter : DirIter) (l : LfnLocals) (info : FileInfo) : FatM Turn :=
  let off := iter.currentEntryInSector.toNat * 32
  if 512 < off + 32 then halt .oob
  else pure (entryTurn (fun i => iter.sectorBuffer (off + i))
    { iter with currentEntryInSector := iter.currentEntryInSector + 1 } l info)

/-- One turn of the loop. -/
def dirTurn (env : Env) (iter : DirIter) (l : LfnLocals) (info : FileInfo) : FatM Turn := do
  let entriesPerSector := (← get).vol.bytesPerSector.toUInt32 / 32
  if iter.sectorBufferValid = false ∨ entriesPerSector ≤ iter.currentEntryInSector.toUInt32 then
    let (res, iter) ← loadSector env iter
    if res ≠ .success then return .done res iter info else nextEntry iter l info
  else nextEntry iter l info

def readDirLoop (env : Env) : Nat → DirIter → LfnLocals → FileInfo → FatM (FatError × DirIter × FileInfo)
  | 0, _, _, _ => halt .spin
  | fuel + 1, iter, l, info => do
    match ← dirTurn env iter l info with
    | .done res iter info => return (res, iter, info)
    | .again iter l info => readDirLoop env fuel iter l info

def fatReadNextDirEntry (env : Env) (fuel : Nat) (iter : DirIter) (info : FileInfo) :
    FatM (FatError × DirIter × FileInfo) := do
  let w ← get
  if !w.vol.isInitialized then return (.notInitialized, iter, info)
  else
    modify fun w => { w with frames := w.frames + 1 }
    readDirLoop env fuel iter (env.stack w.frames) info

section
variable {env : Env} {iter iter' : DirIter} {l l' : LfnLocals} {info info' : FileInfo} {w w' : World} {res : FatError}

theorem readDirLoop_done (h : dirTurn env iter l info w = .ok (.done res iter' info', w')) (fuel : Nat) :
    readDirLoop env (fuel + 1) iter l info w = .ok ((res, iter', info'), w') := by
  simp only [readDirLoop, bind_apply, h, ok_bind, pure_apply]

theorem readDirLoop_again (h : dirTurn env iter l info w = .ok (.again iter' l' info', w')) (fuel : Nat) :
    readDirLoop env (fuel + 1) iter l info w = readDirLoop env fuel iter' l' info' w' := by
  simp only [readDirLoop, bind_apply, h, ok_bind]

end

/-- A call whose first turn ends it. -/
theorem fatReadNextDirEntry_done {env : Env} {iter iter' : DirIter} {info info' : FileInfo} {w w' : World} {res : FatError}
    (hi : w.vol.isInitialized = true)
    (h : dirTurn env iter (env.stack w.frames) info { w with frames := w.frames + 1 } = .ok (.done res iter' info', w'))
    (fuel : Nat) : fatReadNextDirEntry env (fuel + 1) iter info w = .ok ((res, iter', info'), w') := by
  simp only [fatReadNextDirEntry, bind_apply, get_apply, ok_bind, hi, Bool.not_true, Bool.false_eq_true, if_false,
    modify_apply, readDirLoop_done h]

end OpenGpos.Fat
