/-
  OpenGpos.Fat.Asking — FAT32.c gets at the card through its two SD reads and in no other way: each
  function is one dialog with the card, whatever is on it. The rules of `Asking` follow the code.
-/
import OpenGpos.Lib.Dialogs
import OpenGpos.Fat.Read

namespace OpenGpos.Fat

open OpenGpos.Lib.Dialogs

/-! ## SD reads -/

/-- What a read returns and brings. -/
abbrev Reply := Bool × List UInt8

/-- On a card that does not fail. -/
def reply (env : Env) : SdCall → Reply
  | .readBlock block => (true, (List.range 512).map (env.block block))
  | .readPartialBlock block offset length =>
    (true, (List.range length.toUInt16.toNat).map fun i => env.block block (offset.toUInt16.toNat + i))

def cardReads : Oracle Env (Nat → LfnLocals) SdCall Reply World where
  known := Env.stack
  reply := reply
  answers env := ∀ k, env.fails k = false
  log := World.calls

/-- A computation of the file layer, for every card. -/
abbrev FatAsks {α : Type} (x : Env → FatM α) := Asking cardReads x

theorem blit_congr {f g : Nat → UInt8} {n : Nat} (h : ∀ i < n, f i = g i) (buf : Buf) (dst : Nat) :
    blit buf dst n f = blit buf dst n g := by
  funext i
  unfold blit
  by_cases hi : dst ≤ i ∧ i < dst + n
  · rw [if_pos hi, if_pos hi, h _ (by omega)]
  · rw [if_neg hi, if_neg hi]

def readAsks (call : SdCall) (buf : Buf) (dst n : Nat) (data : Env → Nat → UInt8)
    (hd : ∀ env, reply env call = (true, (List.range n).map (data env))) :
    FatAsks fun env => sdRead env call buf dst n (data env) where
  dialog _ w := .ask call fun r =>
    .done (.ok ((r.1, blit buf dst n fun i => r.2.getD i 0), { w with calls := call :: w.calls }))
  same env henv w := by
    rw [sdRead_ok (henv _)]
    simp only [Dialog.result, cardReads, hd env]
    rw [blit_congr]
    intro i hi
    simp [hi]
  log env henv w a w' h := by
    rw [sdRead_ok (henv _)] at h
    cases h
    rfl

def sdReadBlockAsks (block : UInt32) (buf : Buf) : FatAsks fun env => sdReadBlock env block buf :=
  readAsks _ _ _ _ (fun env => env.block block) fun _ => rfl

def sdReadPartialBlockAsks (block offset : UInt32) (buf : Buf) (dst : Nat) (length : UInt32) :
    FatAsks fun env => sdReadPartialBlock env block offset buf dst length :=
  readAsks _ _ _ _ (fun env i => env.block block (offset.toUInt16.toNat + i)) fun _ => rfl

def getAsks : FatAsks fun _ => (get : FatM World) := .lift get (by intro s a s' h; cases h; rfl)

def haltAsks {α : Type} (h : Halt) : FatAsks fun _ => (halt h : FatM α) := .lift (halt h) (by intro s a s' h; cases h)

def modifyAsks (f : World → World) (hf : ∀ w, (f w).calls = w.calls) : FatAsks fun _ => (modify f : FatM PUnit) :=
  .lift (modify f) (by intro s a s' h; cases h; exact hf s)

/-! ## Directories -/

def getNextClusterAsks (c : UInt32) : FatAsks fun env => getNextCluster env c := by
  unfold getNextCluster
  refine getAsks.bind fun w => ?_
  refine .ite _ (.pure _) (.ite _ (.pure _) (.ite _ (haltAsks _) ?_))
  refine (sdReadPartialBlockAsks _ _ _ _ _).bind fun r => ?_
  exact .ite _ (.pure _) (.pure _)

def readSectorAsks (iter : DirIter) : FatAsks fun env => readSector env iter := by
  unfold readSector
  refine getAsks.bind fun w => ?_
  refine (sdReadBlockAsks _ _).bind fun r => ?_
  exact .ite _ (.pure _) (.pure _)

def loadSectorAsks (iter : DirIter) : FatAsks fun env => loadSector env iter := by
  unfold loadSector
  refine getAsks.bind fun w => .ite _ ?_ (readSectorAsks _)
  refine (getNextClusterAsks _).bind fun r => ?_
  exact .ite _ (.pure _) (readSectorAsks _)

def nextEntryAsks (iter : DirIter) (l : LfnLocals) (info : FileInfo) : FatAsks fun _ => nextEntry iter l info := by
  unfold nextEntry
  exact .ite _ (haltAsks _) (.pure _)

def dirTurnAsks (iter : DirIter) (l : LfnLocals) (info : FileInfo) : FatAsks fun env => dirTurn env iter l info := by
  unfold dirTurn
  refine getAsks.bind fun w => .ite _ ?_ (nextEntryAsks iter l info)
  refine (loadSectorAsks iter).bind fun r => ?_
  exact .ite _ (.pure _) (nextEntryAsks r.2 l info)

def readDirLoopAsks : ∀ (fuel : Nat) (iter : DirIter) (l : LfnLocals) (info : FileInfo),
    FatAsks fun env => readDirLoop env fuel iter l info
  | 0, _, _, _ => haltAsks _
  | fuel + 1, iter, l, info => by
    unfold readDirLoop
    refine (dirTurnAsks iter l info).bind fun t => ?_
    cases t with
    | done res iter info => exact .pure _
    | again iter l info => exact readDirLoopAsks fuel iter l info

def fatReadNextDirEntryAsks (fuel : Nat) (iter : DirIter) (info : FileInfo) :
    FatAsks fun env => fatReadNextDirEntry env fuel iter info := by
  unfold fatReadNextDirEntry
  refine getAsks.bind fun w => .ite _ (.pure _) ?_
  refine (modifyAsks (fun w => { w with frames := w.frames + 1 }) fun _ => rfl).bind fun _ => ?_
  exact .known fun stack => readDirLoopAsks fuel iter (stack w.frames) info

/-! ## Paths -/

def initIteratorAsks (iter : DirIter) (c : UInt32) : FatAsks fun _ => fatInitRootDirIterator iter c := by
  unfold fatInitRootDirIterator
  exact getAsks.bind fun w => .ite _ (.pure _) (.pure _)

def scanDirAsks : ∀ (fuel : Nat) (name : List UInt8) (final : Bool) (iter : DirIter) (info : FileInfo),
    FatAsks fun env => scanDir env fuel name final iter info
  | 0, _, _, _, _ => haltAsks _
  | fuel + 1, name, final, iter, info => by
    unfold scanDir
    refine (fatReadNextDirEntryAsks fuel iter info).bind fun r => .ite _ ?_ ?_
    · refine .ite _ (.ite _ ?_ ?_) (scanDirAsks fuel name final _ _)
      · refine (initIteratorAsks _ _).bind fun _ => ?_
        exact .ite _ (.pure _) (.pure _)
      · exact .ite _ (.pure _) (.ite _ (.pure _) (scanDirAsks fuel name final _ _))
    · exact .ite _ (.pure _) (.pure _)

def walkPathAsks : ∀ (fuel : Nat) (path : List UInt8) (iter : DirIter) (info file : FileInfo),
    FatAsks fun env => walkPath env fuel path iter info file
  | 0, _, _, _, _ => haltAsks _
  | fuel + 1, path, iter, info, file => by
    unfold walkPath
    dsimp only
    split
    · rename_i rest _
      refine .ite _ (walkPathAsks fuel rest iter info file) ?_
      refine (scanDirAsks fuel (component path) false iter info).bind fun s => ?_
      cases s with
      | ret res => exact .pure _
      | found info => exact .pure _
      | enter iter info => exact walkPathAsks fuel rest iter info file
    · refine (scanDirAsks fuel (component path) true iter info).bind fun s => ?_
      cases s with
      | ret res => exact .pure _
      | found info => exact .pure _
      | enter iter info => exact walkPathAsks fuel [] iter info file

def getFileAsks (fuel : Nat) (path : List UInt8) (file : FileInfo) : FatAsks fun env => getFile env fuel path file := by
  unfold getFile
  refine getAsks.bind fun w => (initIteratorAsks _ _).bind fun r => .ite _ (.pure _) ?_
  cases path with
  | nil => exact haltAsks _
  | cons c path => exact walkPathAsks fuel path r.2 default file

/-! ## Files -/

def setHandleAsks (i : Slot) (h : FileHandle) : FatAsks fun _ => setHandle i h := modifyAsks _ fun _ => rfl

def fat32OpenAsks (fuel : Nat) (path : List UInt8) (mode : UInt8) : FatAsks fun env => fat32Open env fuel path mode := by
  unfold fat32Open
  refine (getFileAsks fuel path default).bind fun r => .ite _ (.pure _) (getAsks.bind fun w => ?_)
  split
  · exact (setHandleAsks _ _).bind fun _ => .pure _
  · exact .pure _

def fat32CloseAsks (fileId : UInt32) : FatAsks fun _ => fat32Close fileId := by
  unfold fat32Close
  split
  · exact getAsks.bind fun w => (setHandleAsks _ _).bind fun _ => .pure _
  · exact .pure _

def fat32GetSizeAsks (fileId : UInt32) : FatAsks fun _ => fat32GetSize fileId := by
  unfold fat32GetSize
  split
  · exact getAsks.bind fun w => .pure _
  · exact .pure _

def readLoopAsks (i : Slot) (actual : UInt32) : ∀ (fuel : Nat) (total : UInt32) (buf : Buf),
    FatAsks fun env => readLoop env i actual fuel total buf
  | 0, _, _ => haltAsks _
  | fuel + 1, total, buf => by
    unfold readLoop
    refine .ite _ (getAsks.bind fun w => getAsks.bind fun w' => .ite _ (haltAsks _) ?_) (.pure _)
    refine (sdReadPartialBlockAsks _ _ _ _ _).bind fun r => .ite _ (.pure _) ?_
    refine (setHandleAsks _ _).bind fun _ => .ite _ ?_ (readLoopAsks i actual fuel _ _)
    refine (getNextClusterAsks _).bind fun r' => .ite _ (.pure _) (.ite _ (.pure _) ?_)
    exact (setHandleAsks _ _).bind fun _ => readLoopAsks i actual fuel _ _

def fatReadFileAsks (id : UInt32) (buffer : Option Buf) (n : UInt32) : FatAsks fun env => fatReadFile env id buffer n := by
  unfold fatReadFile
  refine getAsks.bind fun w => .ite _ (.pure _) ?_
  cases buffer with
  | none => exact .pure _
  | some buf =>
    dsimp only
    split
    · refine .ite _ (.pure _) (.ite _ (.pure _) ?_)
      exact (readLoopAsks _ _ _ _ _).bind fun r => .pure _
    · exact .pure _

def fat32ReadAsks (id : UInt32) (buffer : Option Buf) (n : UInt32) : FatAsks fun env => fat32Read env id buffer n := by
  unfold fat32Read
  split
  · refine .ite _ (.pure _) (getAsks.bind fun w => .ite _ (.pure _) ?_)
    exact (fatReadFileAsks id buffer n).bind fun r => .pure _
  · exact .pure _

/-! ## Mount -/

def parseMBRAsks : FatAsks fun env => parseMBR env := by
  unfold parseMBR
  refine (sdReadPartialBlockAsks _ _ _ _ _).bind fun r => .ite _ (.pure _) (.ite _ (.pure _) ?_)
  split
  · refine (modifyAsks _ ?_).bind fun _ => .pure _
    exact fun _ => rfl
  · exact .pure _

def parseBPBAsks : FatAsks fun env => parseBPB env := by
  unfold parseBPB
  refine getAsks.bind fun w => (sdReadPartialBlockAsks _ _ _ _ _).bind fun r => .ite _ (.pure _) ?_
  refine getAsks.bind fun w' => .ite _ (haltAsks _) ?_
  refine (modifyAsks _ ?_).bind fun _ => .pure _
  exact fun _ => rfl

def fat32InitAsks : FatAsks fun env => fat32Init env := by
  unfold fat32Init
  refine parseMBRAsks.bind fun ok => .ite _ (.pure _) (parseBPBAsks.bind fun ok' => .ite _ (.pure _) ?_)
  refine (modifyAsks _ ?_).bind fun _ => .pure _
  exact fun _ => rfl

end OpenGpos.Fat
