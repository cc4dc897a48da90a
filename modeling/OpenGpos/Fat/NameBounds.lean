/-
  OpenGpos.Fat.NameBounds — where a call of the iterator writes names. The functions that touch
  the two name buffers are written again with a trace of what they index and store; without the
  trace they are those of `Fat.Dir` (`fatReadNextDirEntry_traced`). Every store is in its place;
  a row past the last one is indexed exactly if more than twenty entries were counted at a short
  entry that takes the long name (`name_bounds_iff`).
-/
import OpenGpos.Lib.Traced
import OpenGpos.Fat.RoundTrip
import OpenGpos.Fat.Sweep

namespace OpenGpos.Fat

open OpenGpos.Lib OpenGpos.Lib.Bytes OpenGpos.Libc.Strings

inductive NameAccess where
  /-- `lfn_buffer[i]` -/
  | row (i : Nat)
  /-- A store to `lfn_buffer[row][j]`. -/
  | rowStore (row j : Nat)
  /-- The rows once a fragment was written to one of them. -/
  | rowWritten (row : Nat) (buffer : Buf)
  /-- A store to `filename[j]`. -/
  | nameStore (j : Nat)
  | nameWritten (filename : Buf)

/-- Rows 0 to 19 of 40 bytes, and 256 bytes of name, each with its NUL. -/
def NameAccess.Safe : NameAccess → Prop
  | .row i => i < 20
  | .rowStore _ j => j < 40
  | .rowWritten i buffer => ∃ j < 40, buffer (i * 40 + j) = 0
  | .nameStore j => j < 256
  | .nameWritten filename => ∃ j < 256, filename j = 0

abbrev NameM := Traced NameAccess

/-! ## The trace -/

def storeRow (row j : Nat) (c : UInt8) (buffer : Buf) : NameM Buf :=
  .access (.rowStore row j) (store8 buffer (row * 40 + j) c)

def storeName (j : Nat) (c : UInt8) (filename : Buf) : NameM Buf := .access (.nameStore j) (store8 filename j c)

def lfnToUtf8LoopTraced (row maxLen : Nat) : List UInt16 → Buf → Nat → NameM (Buf × Nat)
  | [], outBuffer, currentOutLen => pure (outBuffer, currentOutLen)
  | wc :: rest, outBuffer, currentOutLen =>
    if wc = 0x0000 ∨ wc = 0xFFFF then pure (outBuffer, currentOutLen)
    else if currentOutLen < maxLen - 1 then do
      let outBuffer ← storeRow row currentOutLen (if wc < 0x80 then wc.toUInt8 else 0x3F) outBuffer
      lfnToUtf8LoopTraced row maxLen rest outBuffer (currentOutLen + 1)
    else pure (outBuffer, currentOutLen)

def fatLfnToUtf8Traced (entry : Buf) (utf16NamePart copyLen : Nat) (outBuffer : Buf) (row maxLen currentOutLen : Nat) :
    NameM (Buf × Nat) := do
  let chars := (List.range (copyLen / 2)).map fun i => readLe16 entry (utf16NamePart + 2 * i)
  let r ← lfnToUtf8LoopTraced row maxLen chars outBuffer currentOutLen
  let outBuffer ← storeRow row r.2 0 r.1
  .access (.rowWritten row outBuffer) (outBuffer, r.2 - currentOutLen)

def lfnEntryTraced (entry : Buf) (iter : DirIter) (l : LfnLocals) : NameM (DirIter × LfnLocals) :=
  let orderFlags := entry 0
  let sequenceOrder := orderFlags &&& 0xBF
  if sequenceOrder = 0 ∨ 20 < sequenceOrder then pure ({ iter with lfnChecksum := 0 }, { l with partsFound := 0 })
  else if orderFlags &&& 0x40 = 0 ∧ iter.lfnChecksum = 0 then
    pure ({ iter with lfnChecksum := 0 }, { l with partsFound := 0 })
  else do
    let iter := if orderFlags &&& 0x40 ≠ 0 then { iter with lfnChecksum := entry 13 } else iter
    let row ← .access (.row (sequenceOrder.toNat - 1)) (sequenceOrder.toNat - 1)
    let r1 ← fatLfnToUtf8Traced entry 1 10 l.buffer row 256 0
    let r2 ← fatLfnToUtf8Traced entry 14 12 r1.1 row 256 r1.2
    let r3 ← fatLfnToUtf8Traced entry 28 4 r2.1 row 256 (r1.2 + r2.2)
    pure (iter, { buffer := r3.1, partsFound := l.partsFound + 1 })

def strncatLoopTraced (source : Mem) : Mem → Nat → Nat → Nat → NameM Mem
  | dest, d, _, 0 => storeName d 0 dest
  | dest, d, s, num + 1 =>
    if source s = 0 then storeName d 0 dest
    else do
      let dest ← storeName d (source s) dest
      strncatLoopTraced source dest (d + 1) (s + 1) num

def strncatTraced (dest : Mem) (size : Nat) (source : Mem) (s num : Nat) : NameM Mem :=
  strncatLoopTraced source dest (strlen dest 0 size) s num

/-- One turn of the loop over the rows found. -/
def joinRowTraced (l : LfnLocals) (i : Nat) (filename : Buf) : NameM Buf := do
  let row ← .access (.row i) (i * 40)
  if l.buffer row ≠ 0 then strncatTraced filename 256 l.buffer row (255 - strlen filename 0 256) else pure filename

def joinPartsTraced (l : LfnLocals) (filename : Buf) : NameM Buf := do
  let filename ← storeName 0 0 filename
  let filename ← Traced.turns (joinRowTraced l) l.partsFound.toNat filename
  storeName 255 0 filename

/-- Characters and a NUL, from index `i` on. -/
def storeChars : List UInt8 → Nat → Buf → NameM Buf
  | [], i, outName => storeName i 0 outName
  | c :: cs, i, outName => do
    let outName ← storeName i c outName
    storeChars cs (i + 1) outName

def fatSfnToStringTraced (sfnName outName : Buf) : NameM Buf := storeChars (sfnChars sfnName) 0 outName

def nameTraced (entry : Buf) (lfnChecksum : UInt8) (l : LfnLocals) (filename : Buf) : NameM Buf :=
  if lfnChecksum ≠ 0 ∧ fatSfnChecksum entry = lfnChecksum then joinPartsTraced l filename
  else fatSfnToStringTraced entry filename

def sfnEntryTraced (entry : Buf) (lfnChecksum : UInt8) (l : LfnLocals) (info : FileInfo) : NameM FileInfo := do
  let name ← nameTraced entry lfnChecksum l info.filename
  let filename ← .access (.nameWritten name) name
  pure {
    filename
    firstCluster := ((readLe16 entry 20).toUInt32 <<< 16) ||| (readLe16 entry 26).toUInt32
    fileSize := readLe32 entry 28
    attributes := entry 11
    isDirectory := entry 11 &&& 0x10 != 0 }

def entryTurnTraced (entry : Buf) (iter : DirIter) (l : LfnLocals) (info : FileInfo) : NameM Turn :=
  if entry 0 = 0x00 then pure (.done .noMoreEntries iter info)
  else if entry 0 = 0xE5 then pure (.again iter l info)
  else if entry 11 &&& 0x0F = 0x0F then do
    let r ← lfnEntryTraced entry iter l
    pure (.again r.1 r.2 info)
  else do
    let info ← sfnEntryTraced entry iter.lfnChecksum l info
    let iter := { iter with lfnChecksum := 0 }
    if info.attributes &&& 0x08 ≠ 0 ∧ info.isDirectory = false then pure (.again iter { l with partsFound := 0 } info)
    else pure (.done .success iter info)

/-- One turn of the loop, whether it comes to an entry or not. -/
def dirTurnTraced (env : Env) (iter : DirIter) (l : LfnLocals) (info : FileInfo) (w : World) :
    NameM (Except Halt (Turn × World)) :=
  match fetch env iter w with
  | .error h => pure (.error h)
  | .ok r =>
    if r.1.1 ≠ .success then pure (.ok (.done r.1.1 r.1.2 info, r.2))
    else if r.1.2.Past then pure (.error .oob)
    else do
      let turn ← entryTurnTraced r.1.2.entry r.1.2.advance l info
      pure (.ok (turn, r.2))

def readDirLoopTraced (env : Env) : Nat → DirIter → LfnLocals → FileInfo → World →
    NameM (Except Halt ((FatError × DirIter × FileInfo) × World))
  | 0, _, _, _, _ => pure (.error .spin)
  | fuel + 1, iter, l, info, w => do
    match ← dirTurnTraced env iter l info w with
    | .error h => pure (.error h)
    | .ok (.done res iter info, w) => pure (.ok ((res, iter, info), w))
    | .ok (.again iter l info, w) => readDirLoopTraced env fuel iter l info w

def fatReadNextDirEntryTraced (env : Env) (fuel : Nat) (iter : DirIter) (info : FileInfo) (w : World) :
    NameM (Except Halt ((FatError × DirIter × FileInfo) × World)) :=
  if !w.vol.isInitialized then pure (.ok ((.notInitialized, iter, info), w))
  else readDirLoopTraced env fuel iter (env.stack w.frames) info { w with frames := w.frames + 1 }

/-! ## Without the trace -/

theorem value_lfnToUtf8Loop (row maxLen : Nat) (chars : List UInt16) : ∀ (outBuffer : Buf) (n : Nat),
    (lfnToUtf8LoopTraced row maxLen chars outBuffer n).value = lfnToUtf8Loop (row * 40) maxLen chars outBuffer n := by
  induction chars with
  | nil => exact fun _ _ => rfl
  | cons wc rest ih =>
    intro outBuffer n
    rw [lfnToUtf8LoopTraced, lfnToUtf8Loop]
    simp only [Traced.value_ite, Traced.value_pure, Traced.value_bind, ih]
    rfl

theorem value_fatLfnToUtf8 (entry : Buf) (part copyLen : Nat) (outBuffer : Buf) (row maxLen n : Nat) :
    (fatLfnToUtf8Traced entry part copyLen outBuffer row maxLen n).value =
      fatLfnToUtf8 entry part copyLen outBuffer (row * 40) maxLen n := by
  unfold fatLfnToUtf8Traced fatLfnToUtf8
  simp only [Traced.value_bind, value_lfnToUtf8Loop]
  rfl

theorem value_lfnEntry (entry : Buf) (iter : DirIter) (l : LfnLocals) :
    (lfnEntryTraced entry iter l).value = lfnEntry entry iter l := by
  unfold lfnEntryTraced lfnEntry
  simp only [Traced.value_ite, Traced.value_pure, Traced.value_bind, Traced.value_access, value_fatLfnToUtf8]

theorem value_strncatLoop (source : Mem) (num : Nat) : ∀ (dest : Mem) (d s : Nat),
    (strncatLoopTraced source dest d s num).value = strncatLoop source dest d s num := by
  induction num with
  | zero => exact fun _ _ _ => rfl
  | succ num ih =>
    intro dest d s
    rw [strncatLoopTraced, strncatLoop]
    simp only [Traced.value_ite, Traced.value_bind, ih]
    rfl

theorem value_joinRow (l : LfnLocals) (filename : Buf) (i : Nat) :
    (joinRowTraced l i (joinRows l filename i)).value = joinRows l filename (i + 1) := by
  rw [joinRows_succ, joinRowTraced, Traced.value_bind, Traced.value_access]
  by_cases h : l.buffer (i * 40) ≠ 0
  · rw [if_pos h, if_pos h]
    exact value_strncatLoop _ _ _ _ _
  · rw [if_neg h, if_neg h]
    rfl

theorem value_joinRows (l : LfnLocals) (filename : Buf) (n : Nat) :
    (Traced.turns (joinRowTraced l) n (store8 filename 0 0)).value = joinRows l filename n :=
  Traced.value_turns (s := joinRows l filename) (fun i => value_joinRow l filename i) n

theorem value_joinParts (l : LfnLocals) (filename : Buf) : (joinPartsTraced l filename).value = joinParts l filename := by
  unfold joinPartsTraced
  simp only [Traced.value_bind]
  rw [show (storeName 0 0 filename).value = store8 filename 0 0 from rfl, value_joinRows]
  rfl

theorem value_storeChars (cs : List UInt8) : ∀ (i : Nat) (outName : Buf), (storeChars cs i outName).value =
    fun j => if i ≤ j ∧ j < i + cs.length then cs.getD (j - i) 0 else if j = i + cs.length then 0 else outName j := by
  induction cs with
  | nil =>
    intro i outName
    funext j
    show store8 outName i 0 j = _
    unfold store8
    simp
  | cons c cs ih =>
    intro i outName
    rw [storeChars, Traced.value_bind, ih, List.length_cons]
    rw [show (storeName i c outName).value = store8 outName i c from rfl]
    funext j
    unfold store8
    by_cases hj : j = i
    · subst hj
      have h1 : ¬ (j + 1 ≤ j ∧ j < j + 1 + cs.length) := by omega
      have h2 : ¬ j = j + 1 + cs.length := by omega
      have h3 : j ≤ j ∧ j < j + (cs.length + 1) := by omega
      rw [if_neg h1, if_neg h2, if_pos rfl, if_pos h3, Nat.sub_self, List.getD_cons_zero]
    · rw [if_neg hj]
      by_cases hin : i + 1 ≤ j ∧ j < i + 1 + cs.length
      · have h3 : i ≤ j ∧ j < i + (cs.length + 1) := by omega
        rw [if_pos hin, if_pos h3, show j - i = j - (i + 1) + 1 by omega, List.getD_cons_succ]
      · have h3 : ¬ (i ≤ j ∧ j < i + (cs.length + 1)) := by omega
        rw [if_neg hin, if_neg h3, show i + 1 + cs.length = i + (cs.length + 1) by omega]

theorem value_fatSfnToString (sfnName outName : Buf) :
    (fatSfnToStringTraced sfnName outName).value = fatSfnToString sfnName outName := by
  unfold fatSfnToStringTraced fatSfnToString putStr
  rw [value_storeChars]
  funext j
  simp

theorem value_sfnEntry (entry : Buf) (k : UInt8) (l : LfnLocals) (info : FileInfo) :
    (sfnEntryTraced entry k l info).value = sfnEntry entry k l info := by
  unfold sfnEntryTraced nameTraced sfnEntry
  simp only [Traced.value_bind, Traced.value_access, Traced.value_pure, Traced.value_ite, value_joinParts,
    value_fatSfnToString]

theorem value_entryTurn (entry : Buf) (iter : DirIter) (l : LfnLocals) (info : FileInfo) :
    (entryTurnTraced entry iter l info).value = entryTurn entry iter l info := by
  unfold entryTurnTraced entryTurn
  simp only [Traced.value_ite, Traced.value_pure, Traced.value_bind, value_lfnEntry, value_sfnEntry]

theorem value_dirTurn (env : Env) (iter : DirIter) (l : LfnLocals) (info : FileInfo) (w : World) :
    (dirTurnTraced env iter l info w).value = dirTurn env iter l info w := by
  rw [dirTurn_fetch, dirTurnTraced]
  cases fetch env iter w with
  | error h => rfl
  | ok r =>
    rw [ok_bind]
    dsimp only
    simp only [Traced.value_ite, Traced.value_pure, Traced.value_bind, value_entryTurn]

theorem value_readDirLoop (env : Env) (fuel : Nat) : ∀ (iter : DirIter) (l : LfnLocals) (info : FileInfo) (w : World),
    (readDirLoopTraced env fuel iter l info w).value = readDirLoop env fuel iter l info w := by
  induction fuel with
  | zero => exact fun _ _ _ _ => rfl
  | succ fuel ih =>
    intro iter l info w
    rw [readDirLoopTraced, Traced.value_bind, value_dirTurn, readDirLoop, bind_apply]
    cases dirTurn env iter l info w with
    | error h => rfl
    | ok r =>
      obtain ⟨t, w1⟩ := r
      cases t with
      | done res iter info => rfl
      | again iter l info => exact ih iter l info w1

/-- The trace changes nothing. -/
theorem fatReadNextDirEntry_traced (env : Env) (fuel : Nat) (iter : DirIter) (info : FileInfo) (w : World) :
    (fatReadNextDirEntryTraced env fuel iter info w).value = fatReadNextDirEntry env fuel iter info w := by
  unfold fatReadNextDirEntryTraced fatReadNextDirEntry
  simp only [Traced.value_ite, Traced.value_pure, value_readDirLoop, bind_apply, get_apply, ok_bind]
  by_cases h : (!w.vol.isInitialized) = true
  · rw [if_pos h, if_pos h]
    rfl
  · rw [if_neg h, if_neg h]
    rfl

/-! ## In place -/

section
variable {row n cur : Nat} {l : LfnLocals}

@[simp] theorem allReads_storeRow {j : Nat} {c : UInt8} {buffer : Buf} :
    (storeRow row j c buffer).AllReads NameAccess.Safe ↔ j < 40 :=
  Traced.allReads_access _ _

@[simp] theorem allReads_storeName {j : Nat} {c : UInt8} {filename : Buf} :
    (storeName j c filename).AllReads NameAccess.Safe ↔ j < 256 :=
  Traced.allReads_access _ _

theorem allReads_lfnToUtf8Loop (row maxLen : Nat) (chars : List UInt16) : ∀ (outBuffer : Buf) (n : Nat),
    n + chars.length ≤ 40 → (lfnToUtf8LoopTraced row maxLen chars outBuffer n).AllReads NameAccess.Safe := by
  induction chars with
  | nil => exact fun _ _ _ => (Traced.allReads_pure _).mpr trivial
  | cons wc rest ih =>
    intro outBuffer n hn
    rw [List.length_cons] at hn
    rw [lfnToUtf8LoopTraced]
    by_cases hend : wc = 0x0000 ∨ wc = 0xFFFF
    · rw [if_pos hend]
      exact (Traced.allReads_pure _).mpr trivial
    rw [if_neg hend]
    by_cases hroom : n < maxLen - 1
    · rw [if_pos hroom, Traced.allReads_bind]
      exact ⟨allReads_storeRow.mpr (by omega), ih _ _ (by omega)⟩
    · rw [if_neg hroom]
      exact (Traced.allReads_pure _).mpr trivial

/-- A fragment of `n` characters that ends within the row. -/
theorem allReads_fatLfnToUtf8 (entry : Buf) (part : Nat) (outBuffer : Buf) {copyLen : Nat} (hn : copyLen = 2 * n)
    (h : cur + n < 40) : (fatLfnToUtf8Traced entry part copyLen outBuffer row 256 cur).AllReads NameAccess.Safe := by
  subst hn
  have hlen : (fieldChars entry part n).length = n := by rw [fieldChars, List.length_map, List.length_range]
  have hchars : (List.range (2 * n / 2)).map (fun i => readLe16 entry (part + 2 * i)) = fieldChars entry part n := by
    rw [Nat.mul_div_cancel_left n (by decide)]
    rfl
  have htext : (fieldText (fieldChars entry part n)).length ≤ n := length_fieldText_fieldChars entry part n
  obtain ⟨buf', e, -, -⟩ := lfnToUtf8Loop_spec (row * 40) 256 (fieldChars entry part n) outBuffer cur (by omega)
  unfold fatLfnToUtf8Traced
  simp only [hchars, Traced.allReads_bind, value_lfnToUtf8Loop, e, allReads_storeRow]
  refine ⟨allReads_lfnToUtf8Loop _ _ _ _ _ (by omega), by omega, ?_⟩
  exact (Traced.allReads_access _ _).mpr ⟨_, by omega, store8_same ..⟩

/-- An entry of a long name stays in its row. -/
theorem allReads_lfnEntry (entry : Buf) (iter : DirIter) (l : LfnLocals) :
    (lfnEntryTraced entry iter l).AllReads NameAccess.Safe := by
  have hn : ∀ (part n : Nat) (outBuffer : Buf) (dst cur : Nat), cur + n < 256 →
      (fatLfnToUtf8 entry part (2 * n) outBuffer dst 256 cur).2 ≤ n := by
    intro part n outBuffer dst cur h
    obtain ⟨buf', e, -, -⟩ := fatLfnToUtf8_spec entry part n outBuffer dst 256 cur h
    rw [e]
    exact length_fieldText_fieldChars entry part n
  unfold lfnEntryTraced
  dsimp only
  by_cases hr : HasRow entry
  · rw [if_neg (show ¬ (entry 0 &&& 0xBF = 0 ∨ 20 < entry 0 &&& 0xBF) from hr)]
    have hrow : (entry 0 &&& 0xBF).toNat - 1 < 20 := hasRow_row hr
    by_cases hk : entry 0 &&& 0x40 = 0 ∧ iter.lfnChecksum = 0
    · rw [if_pos hk]
      exact (Traced.allReads_pure _).mpr trivial
    · rw [if_neg hk]
      simp only [Traced.allReads_bind, Traced.value_access, value_fatLfnToUtf8, Traced.allReads_pure, and_true]
      generalize hr1 : fatLfnToUtf8 entry 1 10 l.buffer (((entry 0 &&& 0xBF).toNat - 1) * 40) 256 0 = r1
      have h1 : r1.2 ≤ 5 := hr1 ▸ hn 1 5 _ _ 0 (by decide)
      generalize hr2 : fatLfnToUtf8 entry 14 12 r1.1 (((entry 0 &&& 0xBF).toNat - 1) * 40) 256 r1.2 = r2
      have h2 : r2.2 ≤ 6 := hr2 ▸ hn 14 6 _ _ r1.2 (by omega)
      refine ⟨(Traced.allReads_access _ _).mpr hrow, ?_, ?_, ?_⟩
      · exact allReads_fatLfnToUtf8 entry 1 _ (show 10 = 2 * 5 from rfl) (by decide)
      · exact allReads_fatLfnToUtf8 entry 14 _ (show 12 = 2 * 6 from rfl) (by omega)
      · exact allReads_fatLfnToUtf8 entry 28 _ (show 4 = 2 * 2 from rfl) (by omega)
  · rw [if_pos (show entry 0 &&& 0xBF = 0 ∨ 20 < entry 0 &&& 0xBF from not_not.mp hr)]
    exact (Traced.allReads_pure _).mpr trivial

theorem allReads_strncatLoop (source : Mem) (num : Nat) : ∀ (dest : Mem) (d s : Nat), d + num < 256 →
    (strncatLoopTraced source dest d s num).AllReads NameAccess.Safe := by
  induction num with
  | zero => exact fun _ _ _ h => allReads_storeName.mpr h
  | succ num ih =>
    intro dest d s h
    rw [strncatLoopTraced]
    by_cases hs : source s = 0
    · rw [if_pos hs]
      exact allReads_storeName.mpr (by omega)
    · rw [if_neg hs, Traced.allReads_bind]
      exact ⟨allReads_storeName.mpr (by omega), ih _ _ _ (by omega)⟩

/-- A row that is appended: the name has room, whatever the row. -/
theorem allReads_joinRow (l : LfnLocals) (filename : Buf) (i : Nat) :
    (joinRowTraced l i (joinRows l filename i)).AllReads NameAccess.Safe ↔ i < 20 := by
  have hlen : strlen (joinRows l filename i) 0 256 ≤ 255 := by
    rw [(joinRows_string l filename i).strlen (by rw [List.length_take]; omega), List.length_take]
    exact Nat.min_le_left _ _
  unfold joinRowTraced
  rw [Traced.allReads_bind, Traced.allReads_access, Traced.value_access]
  refine and_iff_left ?_
  by_cases h : l.buffer (i * 40) ≠ 0
  · rw [if_pos h]
    exact allReads_strncatLoop _ _ _ _ _ (by omega)
  · rw [if_neg h]
    exact (Traced.allReads_pure _).mpr trivial

/-- Joining indexes every row that is counted. -/
theorem allReads_joinParts (l : LfnLocals) (filename : Buf) :
    (joinPartsTraced l filename).AllReads NameAccess.Safe ↔ l.partsFound.toNat ≤ 20 := by
  unfold joinPartsTraced
  rw [Traced.allReads_bind, Traced.allReads_bind, allReads_storeName, allReads_storeName, Traced.allReads_turns]
  rw [show (storeName 0 0 filename).value = store8 filename 0 0 from rfl]
  simp only [value_joinRows, allReads_joinRow]
  constructor
  · rintro ⟨-, h, -⟩
    by_contra hn
    exact absurd (h 20 (by omega)) (by decide)
  · intro h
    exact ⟨by decide, fun i hi => by omega, by decide⟩

theorem allReads_storeChars (cs : List UInt8) : ∀ (i : Nat) (outName : Buf), i + cs.length < 256 →
    (storeChars cs i outName).AllReads NameAccess.Safe := by
  induction cs with
  | nil => exact fun i _ h => allReads_storeName.mpr h
  | cons c cs ih =>
    intro i outName h
    rw [List.length_cons] at h
    rw [storeChars, Traced.allReads_bind]
    exact ⟨allReads_storeName.mpr (by omega), ih _ _ (by omega)⟩

theorem allReads_name (entry : Buf) (k : UInt8) (l : LfnLocals) (filename : Buf) :
    (nameTraced entry k l filename).AllReads NameAccess.Safe ↔
      (k ≠ 0 ∧ fatSfnChecksum entry = k → l.partsFound.toNat ≤ 20) := by
  unfold nameTraced
  by_cases h : k ≠ 0 ∧ fatSfnChecksum entry = k
  · rw [if_pos h, allReads_joinParts]
    exact ⟨fun hn _ => hn, fun hn => hn h⟩
  · rw [if_neg h]
    refine iff_of_true (allReads_storeChars _ _ _ ?_) fun h' => absurd h' h
    have hlen := length_sfnChars entry
    omega

theorem allReads_sfnEntry (entry : Buf) (k : UInt8) (l : LfnLocals) (info : FileInfo) :
    (sfnEntryTraced entry k l info).AllReads NameAccess.Safe ↔
      (k ≠ 0 ∧ fatSfnChecksum entry = k → l.partsFound.toNat ≤ 20) := by
  unfold sfnEntryTraced
  rw [Traced.allReads_bind, allReads_name, Traced.allReads_bind, Traced.allReads_access]
  refine and_iff_left ⟨?_, (Traced.allReads_pure _).mpr trivial⟩
  unfold nameTraced
  rw [Traced.value_ite]
  by_cases h : k ≠ 0 ∧ fatSfnChecksum entry = k
  · -- the last byte is set to NUL
    rw [if_pos h, value_joinParts]
    exact ⟨255, by decide, store8_same ..⟩
  · rw [if_neg h, value_fatSfnToString]
    have hlen := length_sfnChars entry
    refine ⟨(sfnChars entry).length, by omega, ?_⟩
    show putStr info.filename (sfnChars entry) (sfnChars entry).length = 0
    simp [putStr]

end

/-! ## One call -/

/-- At most twenty entries are counted at a short entry that takes the long name. -/
def FewParts (g : Gathered) (e : Buf) : Prop := IsShort e → g.sum ≠ 0 → fatSfnChecksum e = g.sum → g.count.toNat ≤ 20

theorem allReads_entryTurn {e : Buf} (h0 : e 0 ≠ 0) (iter : DirIter) (l : LfnLocals) (info : FileInfo) :
    (entryTurnTraced e iter l info).AllReads NameAccess.Safe ↔
      (IsShort e → iter.lfnChecksum ≠ 0 → fatSfnChecksum e = iter.lfnChecksum → l.partsFound.toNat ≤ 20) := by
  unfold entryTurnTraced
  rw [if_neg h0]
  by_cases h1 : e 0 = 0xE5
  · rw [if_pos h1]
    exact iff_of_true ((Traced.allReads_pure _).mpr trivial) fun hs => absurd h1 hs.1
  rw [if_neg h1]
  by_cases h2 : e 11 &&& 0x0F = 0x0F
  · rw [if_pos h2, Traced.allReads_bind]
    exact iff_of_true ⟨allReads_lfnEntry _ _ _, (Traced.allReads_pure _).mpr trivial⟩ fun hs => absurd h2 hs.2
  · rw [if_neg h2, Traced.allReads_bind, allReads_sfnEntry, and_imp]
    have hshort : IsShort e := ⟨h1, h2⟩
    rw [forall_prop_of_true hshort]
    refine and_iff_left ?_
    rw [Traced.allReads_ite]
    split <;> exact (Traced.allReads_pure _).mpr trivial

/-- The checksum and the count are those that were gathered. -/
structure Decoding.Counts (d : Decoding) (g : Gathered) : Prop where
  sum : d.lfnChecksum = g.sum
  count : d.locals.partsFound = g.count

theorem Decoding.Counts.pass {d : Decoding} {g : Gathered} (h : d.Counts g) (e : Buf) : (d.pass e).Counts (g.look e) :=
  Decoding.pass_keeps (R := fun (g : Gathered) (d : Decoding) => d.Counts g) (fun _ _ => rfl) (fun _ _ h => h.sum)
    (fun _ _ _ h _ => ⟨by rw [h.sum]; rfl, congrArg (· + 1) h.count⟩) (fun _ _ _ _ => ⟨rfl, rfl⟩) h e

theorem allReads_readDirLoop (env : Env) (fuel : Nat) : ∀ (iter : DirIter) (d : Decoding) (g : Gathered) (w : World),
    d.Counts g → ((readDirLoopTraced env fuel { iter with lfnChecksum := d.lfnChecksum } d.locals d.info w).AllReads NameAccess.Safe ↔
      Along Gathered.look FewParts g (sweep env fuel iter w).entries) := by
  have hpure : ∀ {α : Type} (a : α), (pure a : NameM α).AllReads NameAccess.Safe :=
    fun a => (Traced.allReads_pure a).mpr trivial
  induction fuel with
  | zero => exact fun _ _ _ _ _ => iff_of_true (hpure _) along_nil
  | succ fuel ih =>
    intro iter d g w hd
    rw [readDirLoopTraced, sweep]
    cases hf : fetch env iter w with
    | error h =>
      rw [dirTurnTraced, fetch_checksum, hf]
      exact iff_of_true (hpure _) along_nil
    | ok r =>
      obtain ⟨⟨res, iter1⟩, w1⟩ := r
      have ht : dirTurnTraced env { iter with lfnChecksum := d.lfnChecksum } d.locals d.info w =
          if res ≠ .success then pure (.ok (.done res { iter1 with lfnChecksum := d.lfnChecksum } d.info, w1))
          else if iter1.Past then pure (.error .oob)
          else entryTurnTraced iter1.entry { iter1.advance with lfnChecksum := d.lfnChecksum } d.locals d.info >>=
            fun turn => pure (.ok (turn, w1)) := by
        rw [dirTurnTraced, fetch_checksum, hf]
        rfl
      rw [ht]
      dsimp only
      by_cases hres : res ≠ .success
      · rw [if_pos hres, if_pos hres]
        exact iff_of_true (hpure _) along_nil
      rw [if_neg hres, if_neg hres]
      by_cases hp : iter1.Past
      · rw [if_pos hp, if_pos hp]
        exact iff_of_true (hpure _) along_nil
      rw [if_neg hp, if_neg hp, Traced.allReads_bind, Traced.allReads_bind, Traced.value_bind, value_entryTurn]
      by_cases h0 : iter1.entry 0 = 0
      · rw [if_pos h0, entryTurn_ends (fun _ _ => rfl) _ _ _ h0, entryTurnTraced, if_pos h0]
        exact iff_of_true ⟨⟨hpure _, hpure _⟩, hpure _⟩ along_nil
      have hfew : (entryTurnTraced iter1.entry { iter1.advance with lfnChecksum := d.lfnChecksum } d.locals
          d.info).AllReads NameAccess.Safe ↔ FewParts g iter1.entry := by
        rw [allReads_entryTurn h0, FewParts, hd.count, hd.sum]
      rw [if_neg h0, hfew, and_iff_left (hpure _)]
      by_cases hr : Reported iter1.entry
      · rw [if_pos hr, entryTurn_last hr, along_cons]
        exact and_congr_right fun _ => iff_of_true (hpure _) along_nil
      · rw [if_neg hr, entryTurn_pass h0 hr]
        exact (and_congr_right fun _ => ih _ _ _ _ (hd.pass _)).trans along_cons.symm

/-- Along the entries of the call, no more than twenty parts are counted where a name is joined. -/
def PartsFit (env : Env) (fuel : Nat) (iter : DirIter) (w : World) : Prop :=
  w.vol.isInitialized = true →
    Along Gathered.look FewParts { Gathered.start (env.stack w.frames) with sum := iter.lfnChecksum }
      (sweep env fuel iter { w with frames := w.frames + 1 }).entries

/-- A call stays in its name buffers and leaves a NUL in each exactly if no more than twenty parts
    are counted where a name is joined. -/
theorem name_bounds_iff (env : Env) (fuel : Nat) (iter : DirIter) (info : FileInfo) (w : World) :
    (fatReadNextDirEntryTraced env fuel iter info w).AllReads NameAccess.Safe ↔ PartsFit env fuel iter w := by
  unfold fatReadNextDirEntryTraced PartsFit
  cases hi : w.vol.isInitialized with
  | false => exact iff_of_true ((Traced.allReads_pure _).mpr trivial) fun h => Bool.noConfusion h
  | true =>
    have hd : (Decoding.mk iter.lfnChecksum (env.stack w.frames) info).Counts
        { Gathered.start (env.stack w.frames) with sum := iter.lfnChecksum } := ⟨rfl, rfl⟩
    rw [forall_prop_of_true rfl]
    exact allReads_readDirLoop env fuel iter _ _ _ hd

/-! ## Twenty-one parts -/

/-- A card with two sectors a cluster, whose root directory starts with 21 first parts of a long
    name and the short entry `A` that has their checksum. -/
def crowdedCard : Env := { sampleCard with
  block := fun lba i =>
    if lba = 1 ∧ i = 0x0D then 2
    else if lba = 3 ∨ lba = 4 ∧ i < 160 then
      ([0x41, 0x61, 0, 0, 0, 0, 0, 0, 0, 0, 0, 0x0F, 0, 0x80] : List UInt8).getD (i % 32) 0
    else if lba = 4 ∧ i < 192 then
      ([0x41, 0x20, 0x20, 0x20, 0x20, 0x20, 0x20, 0x20, 0x20, 0x20, 0x20, 0x20] : List UInt8).getD (i % 32) 0
    else sampleCard.block lba i }

def crowdedWorld : World := after (fat32Init crowdedCard World.boot)

/-- A row past the last one is indexed. -/
def NameAccess.isPast : NameAccess → Bool
  | .row i => decide (20 ≤ i)
  | _ => false

theorem isPast_unsafe {a : NameAccess} (h : a.isPast = true) : ¬ a.Safe := by
  cases a with
  | row i =>
    have hi : 20 ≤ i := of_decide_eq_true h
    exact Nat.not_lt.mpr hi
  | _ => cases h

/-- The first call reads row 20, from zeroed locals on. -/
theorem row_past_the_last : (crowdedCard.stack 0).Zeroed ∧
    ¬ (fatReadNextDirEntryTraced crowdedCard 30 (freshIter 2) default crowdedWorld).AllReads NameAccess.Safe := by
  refine ⟨⟨rfl, fun j _ => rfl⟩, fun h => ?_⟩
  have hpast : (fatReadNextDirEntryTraced crowdedCard 30 (freshIter 2) default crowdedWorld).reads.any NameAccess.isPast =
      true := by decide +kernel
  obtain ⟨a, ha, hp⟩ := List.any_eq_true.mp hpast
  exact isPast_unsafe hp (h a ha)

end OpenGpos.Fat
