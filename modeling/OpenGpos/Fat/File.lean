/-
  OpenGpos.Fat.File — path resolution and the file calls. A path is the list of its
  characters up to the NUL. The loops of `get_file` share one fuel: they are bounded by
  what is on the card only. `fat_read_file` is not: every turn of its loop makes progress,
  so the number of bytes to read is fuel enough.
-/
import OpenGpos.Fat.Dir

namespace OpenGpos.Fat

open OpenGpos.Lib.Bytes OpenGpos.Libc.Strings

/-! ## Paths -/

/-- How the search of one directory ends. -/
inductive Scan where
  | ret (res : FatError)
  | found (info : FileInfo)
  | enter (iter : DirIter) (info : FileInfo)

/-- The `do` loop of `get_file`: look for `nameBuffer` in the directory of the iterator. -/
def scanDir (env : Env) : Nat → List UInt8 → Bool → DirIter → FileInfo → FatM Scan
  | 0, _, _, _, _ => halt .spin
  | fuel + 1, nameBuffer, finalPathComponent, dirIter, currentEntry => do
    let (result, dirIter, currentEntry) ← fatReadNextDirEntry env fuel dirIter currentEntry
    if result = .success then
      if strcmp currentEntry.filename nameBuffer 0 = 0 then
        if currentEntry.isDirectory ∧ !finalPathComponent then
          let (initRes, dirIter) ← fatInitRootDirIterator dirIter currentEntry.firstCluster
          if initRes ≠ .success then return .ret initRes else return .enter dirIter currentEntry
        else if finalPathComponent ∧ !currentEntry.isDirectory then return .found currentEntry
        else if finalPathComponent ∧ currentEntry.isDirectory then return .ret .fileNotFound
        else scanDir env fuel nameBuffer finalPathComponent dirIter currentEntry
      else scanDir env fuel nameBuffer finalPathComponent dirIter currentEntry
    else if result = .noMoreEntries then return .ret .fileNotFound
    else return .ret result

section
variable {env : Env} {fuel : Nat} {name : List UInt8} {final : Bool} {iter iter' : DirIter} {info info' : FileInfo}
  {w w' : World} {res : FatError}

/-- What `get_file` makes of an iterator that has no more to report. -/
def refusal (res : FatError) : FatError := if res = .noMoreEntries then .fileNotFound else res

theorem refusal_ne_success (hr : res ≠ .success) : refusal res ≠ .success := by
  unfold refusal
  by_cases hn : res = .noMoreEntries
  · rw [if_pos hn]; decide
  · rw [if_neg hn]; exact hr

theorem scanDir_refused (h : fatReadNextDirEntry env fuel iter info w = .ok ((res, iter', info'), w')) (hr : res ≠ .success) :
    scanDir env (fuel + 1) name final iter info w = .ok (.ret (refusal res), w') := by
  simp only [scanDir, bind_apply, h, ok_bind, if_neg hr, refusal]
  by_cases hn : res = .noMoreEntries
  · rw [if_pos hn, if_pos hn]; rfl
  · rw [if_neg hn, if_neg hn]; rfl

variable (h : fatReadNextDirEntry env fuel iter info w = .ok ((.success, iter', info'), w'))
include h

theorem scanDir_other (hn : strcmp info'.filename name 0 ≠ 0 ∨ info'.isDirectory = false ∧ final = false) :
    scanDir env (fuel + 1) name final iter info w = scanDir env fuel name final iter' info' w' := by
  simp only [scanDir, bind_apply, h, ok_bind, if_true]
  by_cases hc : strcmp info'.filename name 0 = 0
  · obtain ⟨hd, hf⟩ := hn.resolve_left (not_not.mpr hc)
    simp [hc, hd, hf]
  · rw [if_neg hc]

theorem scanDir_enter (hi : w'.vol.isInitialized = true) (hc : strcmp info'.filename name 0 = 0)
    (hd : info'.isDirectory = true) (hf : final = false) :
    scanDir env (fuel + 1) name final iter info w = .ok (.enter (freshIter info'.firstCluster) info', w') := by
  have e := fatInitRootDirIterator_apply hi iter' info'.firstCluster
  simp [scanDir, h, hc, hd, hf, e]

theorem scanDir_found (hc : strcmp info'.filename name 0 = 0) (hd : info'.isDirectory = false) (hf : final = true) :
    scanDir env (fuel + 1) name final iter info w = .ok (.found info', w') := by
  simp [scanDir, h, hc, hd, hf]

theorem scanDir_isDirectory (hc : strcmp info'.filename name 0 = 0) (hd : info'.isDirectory = true) (hf : final = true) :
    scanDir env (fuel + 1) name final iter info w = .ok (.ret .fileNotFound, w') := by
  simp [scanDir, h, hc, hd, hf]

end

/-- A character of a name. -/
def inName (c : UInt8) : Bool := c != 0x2F && c != 0

/-- The next component, cut to `MAX_FILENAME_LEN - 1` characters. -/
def component (path : List UInt8) : List UInt8 := (path.takeWhile inName).take 255

/-- What follows the component: the path behind the slash, or `none` at its end. -/
def behind (path : List UInt8) : Option (List UInt8) :=
  match path.dropWhile inName with
  | 0x2F :: rest => some rest
  | _ => none

theorem behind_mem {path rest : List UInt8} (h : behind path = some rest) : rest.length < path.length ∧ ∀ c ∈ rest, c ∈ path := by
  have hsuf := List.dropWhile_suffix inName (l := path)
  unfold behind at h
  split at h
  · rename_i hd
    cases h
    rw [hd] at hsuf
    have hlen := hsuf.length_le
    rw [List.length_cons] at hlen
    exact ⟨by omega, fun c hc => hsuf.subset (List.mem_cons_of_mem _ hc)⟩
  · cases h

/-- The outer loop of `get_file`. -/
def walkPath (env : Env) : Nat → List UInt8 → DirIter → FileInfo → FileInfo → FatM (FatError × FileInfo)
  | 0, _, _, _, _ => halt .spin
  | fuel + 1, path, dirIter, currentEntry, file => do
    let nameBuffer := component path
    match behind path with
    | some rest =>
      if nameBuffer = [] then walkPath env fuel rest dirIter currentEntry file
      else
        match ← scanDir env fuel nameBuffer false dirIter currentEntry with
        | .ret res => return (res, file)
        | .found info => return (.success, info)
        | .enter dirIter currentEntry => walkPath env fuel rest dirIter currentEntry file
    | none =>
      match ← scanDir env fuel nameBuffer true dirIter currentEntry with
      | .ret res => return (res, file)
      | .found info => return (.success, info)
      | .enter dirIter currentEntry => walkPath env fuel [] dirIter currentEntry file

/-- What `get_file` makes of the scan of one directory, with `rest` of the path to go. -/
def afterScan (env : Env) (fuel : Nat) (rest : List UInt8) (file : FileInfo) : Scan → FatM (FatError × FileInfo)
  | .ret res => pure (res, file)
  | .found info => pure (.success, info)
  | .enter dirIter currentEntry => walkPath env fuel rest dirIter currentEntry file

section
variable {env : Env} {path rest : List UInt8} (fuel : Nat) (iter : DirIter) (info file : FileInfo)

theorem walkPath_last (hb : behind path = none) : walkPath env (fuel + 1) path iter info file =
    scanDir env fuel (component path) true iter info >>= afterScan env fuel [] file := by
  rw [walkPath, hb]
  refine congrArg (bind _) (funext fun r => ?_)
  cases r <;> rfl

theorem walkPath_empty (hb : behind path = some rest) (hn : component path = []) :
    walkPath env (fuel + 1) path iter info file = walkPath env fuel rest iter info file := by
  rw [walkPath, hb]
  exact if_pos hn

theorem walkPath_through (hb : behind path = some rest) (hn : component path ≠ []) :
    walkPath env (fuel + 1) path iter info file =
      scanDir env fuel (component path) false iter info >>= afterScan env fuel rest file := by
  rw [walkPath, hb]
  refine (if_neg hn).trans (congrArg (bind _) (funext fun r => ?_))
  cases r <;> rfl

end

/-- `path++` on an empty string leaves the string. -/
def getFile (env : Env) (fuel : Nat) (path : List UInt8) (file : FileInfo) : FatM (FatError × FileInfo) := do
  let (initRes, dirIter) ← fatInitRootDirIterator default (← get).vol.rootDirCluster
  if initRes ≠ .success then return (initRes, file)
  else
    match path with
    | [] => halt .oob
    | _ :: path => walkPath env fuel path dirIter default file

/-! ## Handles -/

def setHandle (i : Slot) (h : FileHandle) : FatM Unit :=
  modify fun w => { w with handles := fun j => if j = i then h else w.handles j }

@[simp] theorem setHandle_apply (i : Slot) (h : FileHandle) (w : World) :
    setHandle i h w = .ok ((), { w with handles := fun j => if j = i then h else w.handles j }) := rfl

/-- `(uint32_t)-1`. -/
def noFile : UInt32 := 0xFFFFFFFF

def fat32Open (env : Env) (fuel : Nat) (path : List UInt8) (mode : UInt8) : FatM UInt32 := do
  let (res, file) ← getFile env fuel path default
  if res ≠ .success then return noFile
  else
    let w ← get
    match (List.finRange 16).find? fun i => (w.handles i).isFree with
    | some i =>
      setHandle i {
        clusterStart := file.firstCluster
        currentCluster := file.firstCluster
        currentOffset := 0
        fileSize := file.fileSize
        currentFilePos := 0
        isFree := false
        mode }
      return UInt32.ofNat i
    | none => return noFile

def fat32Close (fileId : UInt32) : FatM Bool := do
  if h : fileId.toNat < 16 then
    let i : Slot := ⟨fileId.toNat, h⟩
    setHandle i { (← get).handles i with isFree := true }
    return true
  else return false

def fat32GetSize (fileId : UInt32) : FatM UInt32 := do
  if h : fileId.toNat < 16 then return ((← get).handles ⟨fileId.toNat, h⟩).fileSize
  else return 0

/-! ## Reading -/

/-- `min` of FAT32.c compares `int`s. -/
def min (a b : UInt32) : UInt32 := if a.toInt32 < b.toInt32 then a else b

/-- The `while` loop of `fat_read_file`. -/
def readLoop (env : Env) (i : Slot) (actualBytesToRead : UInt32) : Nat → UInt32 → Buf → FatM (FatError × Buf)
  | 0, _, _ => halt .spin
  | fuel + 1, bytesReadTotal, buffer => do
    if bytesReadTotal < actualBytesToRead then
      let v := (← get).vol
      let h := (← get).handles i
      if v.bytesPerSector = 0 then halt .divZero
      else
        let currentSectorInCluster := h.currentOffset / v.bytesPerSector.toUInt32
        let currentByteInSector := h.currentOffset % v.bytesPerSector.toUInt32
        let currentSectorLba := fatClusterToLba v h.currentCluster + currentSectorInCluster
        let bytesLeftInSector := v.bytesPerSector.toUInt32 - currentByteInSector
        let bytesToCopy := min (actualBytesToRead - bytesReadTotal) bytesLeftInSector
        let (ok, buffer) ←
          sdReadPartialBlock env currentSectorLba currentByteInSector buffer bytesReadTotal.toNat bytesToCopy
        if !ok then return (.readFail, buffer)
        else
          let h := { h with
            currentFilePos := h.currentFilePos + bytesToCopy
            currentOffset := h.currentOffset + bytesToCopy }
          setHandle i h
          if v.bytesPerCluster ≤ h.currentOffset then
            let (res, nextCluster) ← getNextCluster env h.currentCluster
            if res = .endOfChain then return (.success, buffer)
            else if res ≠ .success then return (res, buffer)
            else
              setHandle i { h with currentCluster := nextCluster, currentOffset := 0 }
              readLoop env i actualBytesToRead fuel (bytesReadTotal + bytesToCopy) buffer
          else readLoop env i actualBytesToRead fuel (bytesReadTotal + bytesToCopy) buffer
    else return (.success, buffer)

/-- `buffer` is `none` for NULL. -/
def fatReadFile (env : Env) (fileId : UInt32) (buffer : Option Buf) (bytesToRead : UInt32) : FatM (FatError × Option Buf) := do
  let w ← get
  if !w.vol.isInitialized then return (.notInitialized, buffer)
  else
    match buffer with
    | none => return (.badFatEntry, none)
    | some buf =>
      if hi : fileId.toNat < 16 then
        let h := w.handles ⟨fileId.toNat, hi⟩
        if h.isFree then return (.badFatEntry, buffer)
        else
          let actualBytesToRead := min bytesToRead (h.fileSize - h.currentFilePos)
          if actualBytesToRead = 0 then return (.success, buffer)
          else
            let (res, buf) ←
              readLoop env ⟨fileId.toNat, hi⟩ actualBytesToRead (actualBytesToRead.toNat + 1) 0 buf
            return (res, some buf)
      else return (.badFatEntry, buffer)

def fat32Read (env : Env) (fileId : UInt32) (buffer : Option Buf) (bytesToRead : UInt32) : FatM (Bool × Option Buf) := do
  if hi : fileId.toNat < 16 then
    if buffer.isNone then return (false, buffer)
    else if ((← get).handles ⟨fileId.toNat, hi⟩).isFree then return (false, buffer)
    else
      let (res, buffer) ← fatReadFile env fileId buffer bytesToRead
      return (res == .success, buffer)
  else return (false, buffer)

end OpenGpos.Fat
