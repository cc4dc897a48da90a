/-
  OpenGpos.Fat.Turns — one turn of `fat_read_next_dir_entry` from wherever its iterator stands,
  after whatever earlier calls answered. `ahead` is what the iterator has in front of it: the
  entries of its buffer from the cursor on, valid or not what the card holds, and the
  sectors of the directory behind its counters. A turn takes the first of them
  (`dirTurn_looks`), or ends the call on the last one or on a read that fails.
-/
import OpenGpos.Fat.Listing

namespace OpenGpos.Fat

/-- The 32 bytes of an entry. -/
def entryBytes (e : Buf) : Buf := fun i => if i < 32 then e i else 0

theorem entryBytes_agree (e : Buf) : Agree e (entryBytes e) := fun _ hi => (if_pos hi).symm

theorem entryBytes_congr {e e' : Buf} (h : Agree e e') : entryBytes e = entryBytes e' := by
  funext i
  unfold entryBytes
  by_cases hi : i < 32
  · rw [if_pos hi, if_pos hi, h i hi]
  · rw [if_neg hi, if_neg hi]

/-- The 16 entries of 512 bytes. -/
def sectorEntries (b : Nat → UInt8) : List Buf := (List.range 16).map fun k => entryBytes fun i => b (k * 32 + i)

/-- The directory from sector `p` on. -/
def fromSector (env : Env) (v : VolumeInfo) (cs : List UInt32) (p : Nat) : List Buf :=
  ((records env v cs).map entryBytes).drop (16 * p)

/-- The entries of the buffer that the cursor has not passed. -/
def inBuffer (iter : DirIter) : List Buf :=
  if iter.sectorBufferValid then (sectorEntries iter.sectorBuffer).drop iter.currentEntryInSector.toNat else []

/-- The sector that the counters lead to next, on cluster `q` of the chain. -/
def nextSector (v : VolumeInfo) (q : Nat) (x : UInt32) : Nat :=
  if (x + 1).toNat < v.sectorsPerCluster.toNat then q * v.sectorsPerCluster.toNat + (x + 1).toNat
  else (q + 1) * v.sectorsPerCluster.toNat

def ahead (env : Env) (v : VolumeInfo) (cs : List UInt32) (q : Nat) (iter : DirIter) : List Buf :=
  inBuffer iter ++ fromSector env v cs (nextSector v q iter.currentSectorInCluster)

/-- The iterator is on cluster `q` of the chain. -/
structure OnCluster (cs : List UInt32) (q : Nat) (iter : DirIter) : Prop where
  cluster : cs[q]? = some iter.currentCluster
  entry : iter.currentEntryInSector.toNat ≤ 16

section
variable {env : Env} {v : VolumeInfo} {cs : List UInt32} {q : Nat} {iter : DirIter} {c : UInt32} {b : Nat → UInt8}
    {k : Nat}

theorem sectorEntries_length : (sectorEntries b).length = 16 := by
  unfold sectorEntries
  rw [List.length_map, List.length_range]

theorem sectorEntries_congr {b' : Nat → UInt8} (h : ∀ i < 512, b i = b' i) : sectorEntries b = sectorEntries b' := by
  unfold sectorEntries
  refine List.map_congr_left fun k hk => entryBytes_congr fun i hi => ?_
  have := List.mem_range.mp hk
  exact h _ (by omega)

theorem sectorEntries_drop (hk : k < 16) : (sectorEntries b).drop k = (entryBytes fun i => b (k * 32 + i)) ::
    (sectorEntries b).drop (k + 1) := by
  rw [List.drop_eq_getElem_cons (by rw [sectorEntries_length]; exact hk)]
  simp [sectorEntries]

theorem records_length : (records env v cs).length = recordCount v cs := by
  unfold records
  rw [List.length_map, List.length_range]

theorem recordCount_sectors (v : VolumeInfo) (cs : List UInt32) :
    recordCount v cs = 16 * (cs.length * v.sectorsPerCluster.toNat) := by
  have h : cs.length * v.bpc = cs.length * v.sectorsPerCluster.toNat * 512 := (Nat.mul_assoc _ _ _).symm
  unfold recordCount
  rw [h]
  omega

/-- Past the last cluster there is nothing. -/
theorem fromSector_end {p : Nat} (hp : cs.length * v.sectorsPerCluster.toNat ≤ p) : fromSector env v cs p = [] := by
  unfold fromSector
  refine List.drop_eq_nil_of_le ?_
  rw [List.length_map, records_length, recordCount_sectors]
  omega

theorem nothing_behind {x : UInt32} (hlast : q + 1 = cs.length) (hx : v.sectorsPerCluster.toNat ≤ (x + 1).toNat) :
    fromSector env v cs (nextSector v q x) = [] := by
  refine fromSector_end ?_
  unfold nextSector
  rw [if_neg (Nat.not_lt.mpr hx), hlast]

theorem sector_place {m s : Nat} (hs : s < m) : (q * m + s) * 512 / (m * 512) = q ∧ (q * m + s) * 512 %
    (m * 512) / 512 = s := by
  rw [Nat.mul_div_mul_right _ _ (by decide), Nat.mul_mod_mul_right, Nat.mul_div_cancel _ (by decide), Nat.add_comm,
    Nat.add_mul_div_right _ _ (Nat.zero_lt_of_lt hs), Nat.div_eq_of_lt hs, Nat.add_mul_mod_self_right,
      Nat.mod_eq_of_lt hs, Nat.zero_add]
  exact ⟨rfl, rfl⟩

/-- Entry `k` of sector `s` of cluster `q` is a record of the directory. -/
theorem record_sector (hv : v.WellFormed) (hch : Chain env v cs) (hc : cs[q]? = some c) {s : Nat}
    (hs : s < v.sectorsPerCluster.toNat) (hk : k < 16) : entryBytes (record env v cs (16 * (q * v.sectorsPerCluster.toNat + s) + k)) =
      entryBytes fun i => env.block (fatClusterToLba v c + UInt32.ofNat s) (k * 32 + i) := by
  obtain ⟨hdiv, hmod⟩ := sector_place (q := q) hs
  have hb := hv.bpc_pos
  have hread : Agree (dirEntry env v c s k)
      (dirEntry env v c ((q * v.sectorsPerCluster.toNat + s) * 512 % v.bpc / 512) k) := by
    rw [show v.bpc = v.sectorsPerCluster.toNat * 512 from rfl, hmod]
    exact fun _ _ => rfl
  have h := agree_record (P := (q * v.sectorsPerCluster.toNat + s) * 512) hb (hch.inRange hc)
    (Nat.mul_mod_left _ _) (hdiv ▸ hc) hk hread
  rw [show (q * v.sectorsPerCluster.toNat + s) * 512 / 32 = 16 * (q * v.sectorsPerCluster.toNat + s) by omega] at h
  exact (entryBytes_congr h).symm

/-- Sector `s` of cluster `q` and what follows it. -/
theorem fromSector_sector (hv : v.WellFormed) (hch : Chain env v cs) (hc : cs[q]? = some c) {s : Nat}
    (hs : s < v.sectorsPerCluster.toNat) : fromSector env v cs (q * v.sectorsPerCluster.toNat + s) =
      sectorEntries (env.block (fatClusterToLba v c + UInt32.ofNat s)) ++ fromSector env v cs (q * v.sectorsPerCluster.toNat + s + 1) := by
  have hq : q < cs.length := (List.getElem?_eq_some_iff.mp hc).1
  have hroom : q * v.sectorsPerCluster.toNat + s + 1 ≤ cs.length * v.sectorsPerCluster.toNat := by
    have := Nat.mul_le_mul_right v.sectorsPerCluster.toNat (Nat.succ_le_of_lt hq)
    rw [Nat.succ_mul] at this
    omega
  have hget : ∀ k < 16, ((records env v cs).map entryBytes)[16 * (q * v.sectorsPerCluster.toNat + s) + k]? =
      some (entryBytes fun i => env.block (fatClusterToLba v c + UInt32.ofNat s) (k * 32 + i)) := by
    intro k hk
    rw [← record_sector hv hch hc hs hk, List.getElem?_map, records, List.getElem?_map, List.getElem?_range]
    · rfl
    · rw [recordCount_sectors]
      omega
  unfold fromSector
  rw [← List.take_append_drop 16 (List.drop (16 * (q * v.sectorsPerCluster.toNat + s)) _), List.drop_drop, Nat.mul_succ]
  refine congrArg (· ++ _) ?_
  refine List.ext_getElem? fun k => ?_
  by_cases hk : k < 16
  · rw [List.getElem?_take_of_lt hk, List.getElem?_drop, hget k hk, sectorEntries, List.getElem?_map,
      List.getElem?_range hk]
    rfl
  · rw [List.getElem?_eq_none, List.getElem?_eq_none]
    · rw [sectorEntries_length]
      omega
    · rw [List.length_take]
      omega

end

/-! ## Turns -/

/-- What a failing read of a sector leaves in the buffer. -/
def junkBuffer (env : Env) (k : Nat) (buf : Buf) : Buf := blit buf 0 512 fun i => env.junk k i (buf (0 + i))

/-- The valid buffer holds a sector of its cluster. -/
def Loaded (env : Env) (v : VolumeInfo) (iter : DirIter) : Prop :=
  iter.sectorBufferValid = true → ∃ s < v.sectorsPerCluster.toNat,
    sectorEntries iter.sectorBuffer = sectorEntries (env.block (fatClusterToLba v iter.currentCluster + UInt32.ofNat s))

/-- A turn took `r`, and the iterator is `iter'` then: it stepped on in its buffer, or loaded a sector. -/
structure Looked (env : Env) (v : VolumeInfo) (cs : List UInt32) (q : Nat) (iter : DirIter) (r : Buf) (q' : Nat) (iter' : DirIter) :
    Prop where
  on : OnCluster cs q' iter'
  takes : ahead env v cs q iter = r :: ahead env v cs q' iter'
  valid : iter'.sectorBufferValid = true
  checksum : iter'.lfnChecksum = iter.lfnChecksum
  stepped : (q' = q ∧ iter' = { iter with currentEntryInSector := iter.currentEntryInSector + 1 }) ∨
    (inBuffer iter = [] ∧ Loaded env v iter')

/-- What is ahead of the iterator once a read has failed that the turn made. -/
def leftAhead (env : Env) (v : VolumeInfo) (cs : List UInt32) (q : Nat) (iter : DirIter) (k : Nat) : List Buf :=
  let junk (k : Nat) := if iter.sectorBufferValid then sectorEntries (junkBuffer env k iter.sectorBuffer) else []
  let x := iter.currentSectorInCluster + 1
  -- the next sector of the cluster is passed over
  if x.toNat < v.sectorsPerCluster.toNat then junk k ++ fromSector env v cs (nextSector v q x)
  -- the buffer is taken again
  else if env.fails k then
    (if iter.sectorBufferValid then sectorEntries iter.sectorBuffer else []) ++ fromSector env v cs (nextSector v q x)
  -- the first sector of the next cluster is passed over
  else junk (k + 1) ++ fromSector env v cs (nextSector v (q + 1) 0)

/-- Sector `x` of cluster `c` is in the buffer, and the cursor in front of its entries. -/
def DirIter.onSector (env : Env) (v : VolumeInfo) (iter : DirIter) (c x : UInt32) : DirIter :=
  { iter with
    currentCluster := c
    currentSectorInCluster := x
    currentEntryInSector := 0
    sectorBuffer := blit iter.sectorBuffer 0 512 (env.block (fatClusterToLba v c + x))
    sectorBufferValid := true }

/-- The iterator with the next entry in its buffer, its cluster of the chain and the number of the next
    SD command, which is `k` now; `none` if a command fails or the chain ends. -/
def fetched (env : Env) (v : VolumeInfo) (cs : List UInt32) (q : Nat) (iter : DirIter) (k : Nat) :
    Option (Nat × DirIter × Nat) :=
  if inBuffer iter ≠ [] then some (q, iter, k)
  else if env.fails k then none
  else if (iter.currentSectorInCluster + 1).toNat < v.sectorsPerCluster.toNat then
    some (q, iter.onSector env v iter.currentCluster (iter.currentSectorInCluster + 1), k + 1)
  else
    -- command `k` was the lookup
    match cs[q + 1]? with
    | none => none
    | some d => if env.fails (k + 1) then none else some (q + 1, iter.onSector env v d 0, k + 2)

/-- A command fails that the next entry takes. -/
def FetchFails (env : Env) (v : VolumeInfo) (cs : List UInt32) (q : Nat) (iter : DirIter) (k : Nat) : Prop :=
  inBuffer iter = [] ∧ (env.fails k = true ∨
    v.sectorsPerCluster.toNat ≤ (iter.currentSectorInCluster + 1).toNat ∧ q + 1 < cs.length ∧ env.fails (k + 1) = true)

instance (env : Env) (v : VolumeInfo) (cs : List UInt32) (q : Nat) (iter : DirIter) (k : Nat) :
    Decidable (FetchFails env v cs q iter k) := inferInstanceAs (Decidable (_ ∧ _))

theorem FetchFails.fails {env : Env} {v : VolumeInfo} {cs : List UInt32} {q : Nat} {iter : DirIter} {k : Nat}
    (h : FetchFails env v cs q iter k) : ∃ n, k ≤ n ∧ env.fails n = true := by
  rcases h.2 with hf | ⟨-, -, hf⟩
  · exact ⟨k, Nat.le_refl k, hf⟩
  · exact ⟨k + 1, Nat.le_succ k, hf⟩

/-- The next entry is `r`, and the iterator is `iter'` behind it. -/
def Fetches (env : Env) (v : VolumeInfo) (cs : List UInt32) (q : Nat) (iter : DirIter) (k : Nat) (r : Buf) (q' : Nat)
    (iter' : DirIter) (k' : Nat) : Prop :=
  ∃ iter0, fetched env v cs q iter k = some (q', iter0, k') ∧ inBuffer iter0 = r :: inBuffer iter' ∧
    iter' = { iter0 with currentEntryInSector := iter0.currentEntryInSector + 1 }

section
variable {env : Env} {w : World} {cs : List UInt32} {q : Nat} {iter : DirIter} {c : UInt32} (l : LfnLocals) (info : FileInfo)

theorem readSector_junk (hf : env.fails w.calls.length = true) (iter : DirIter) : readSector env iter w =
    .ok ((.readFail, { iter with sectorBuffer := junkBuffer env w.calls.length iter.sectorBuffer }),
      { w with calls := .readBlock (fatClusterToLba w.vol iter.currentCluster + iter.currentSectorInCluster) :: w.calls }) := by
  simp only [readSector, bind_apply, get_apply, ok_bind, sdReadBlock, sdRead_fail hf]
  rfl

theorem readSector_block (hf : env.fails w.calls.length = false) (iter : DirIter) : readSector env iter w =
    .ok ((.success, { iter with
        sectorBuffer := blit iter.sectorBuffer 0 512 (env.block (fatClusterToLba w.vol iter.currentCluster + iter.currentSectorInCluster))
        sectorBufferValid := true }),
      { w with calls := .readBlock (fatClusterToLba w.vol iter.currentCluster + iter.currentSectorInCluster) :: w.calls }) := by
  simp only [readSector, bind_apply, get_apply, ok_bind, sdReadBlock, sdRead_ok hf]
  rfl

theorem sectorEntries_block (buf : Buf) (f : Nat → UInt8) : sectorEntries (blit buf 0 512 f) = sectorEntries f := by
  refine sectorEntries_congr fun i hi => ?_
  unfold blit
  rw [if_pos ⟨Nat.zero_le i, by omega⟩, Nat.sub_zero]

theorem next_entry {iter : DirIter} (h : iter.currentEntryInSector.toNat < 16) :
    (iter.currentEntryInSector + 1).toNat = iter.currentEntryInSector.toNat + 1 := by
  rw [UInt16.toNat_add]
  exact Nat.mod_eq_of_lt (show _ + 1 < 2 ^ 16 by omega)

theorem inBuffer_next (hvalid : iter.sectorBufferValid = true) (hlt : iter.currentEntryInSector.toNat < 16) :
    inBuffer iter = (entryBytes fun i => iter.sectorBuffer (iter.currentEntryInSector.toNat * 32 + i)) ::
      inBuffer { iter with currentEntryInSector := iter.currentEntryInSector + 1 } := by
  unfold inBuffer
  rw [if_pos hvalid, if_pos hvalid, sectorEntries_drop hlt, next_entry hlt]

/-- The entry at the cursor of a valid buffer. -/
theorem looked_inBuffer (v : VolumeInfo) (ho : OnCluster cs q iter) (hvalid : iter.sectorBufferValid = true)
    (hlt : iter.currentEntryInSector.toNat < 16) :
    Looked env v cs q iter (entryBytes fun i => iter.sectorBuffer (iter.currentEntryInSector.toNat * 32 + i)) q
      { iter with currentEntryInSector := iter.currentEntryInSector + 1 } := by
  have hn := next_entry hlt
  refine ⟨⟨ho.cluster, by show (iter.currentEntryInSector + 1).toNat ≤ 16; omega⟩, ?_, hvalid, rfl, Or.inl ⟨rfl, rfl⟩⟩
  unfold ahead
  rw [inBuffer_next hvalid hlt]
  rfl

/-- A turn that needs no sector. -/
theorem dirTurn_inBuffer (hv : w.vol.WellFormed) (hvalid : iter.sectorBufferValid = true)
    (hlt : iter.currentEntryInSector.toNat < 16) : dirTurn env iter l info w =
      .ok (entryTurn (fun i => iter.sectorBuffer (iter.currentEntryInSector.toNat * 32 + i))
        { iter with currentEntryInSector := iter.currentEntryInSector + 1 } l info, w) := by
  have hbps : w.vol.bytesPerSector.toNat = 512 := by rw [hv.sector]; rfl
  have hload : ¬(iter.sectorBufferValid = false ∨ w.vol.bytesPerSector.toUInt32 / 32 ≤ iter.currentEntryInSector.toUInt32) := by
    rw [perSector_le, hvalid, hbps]
    simp only [Bool.true_eq_false, false_or]
    omega
  have hroom : ¬512 < iter.currentEntryInSector.toNat * 32 + 32 := by omega
  simp only [dirTurn, bind_apply, get_apply, ok_bind, if_neg hload, nextEntry, if_neg hroom, pure_apply]

theorem inBuffer_nil (h : ¬(iter.sectorBufferValid = true ∧ iter.currentEntryInSector.toNat < 16)) :
    inBuffer iter = [] := by
  unfold inBuffer
  by_cases hvalid : iter.sectorBufferValid = true
  · rw [if_pos hvalid]
    exact List.drop_eq_nil_of_le (by rw [sectorEntries_length]; exact Nat.not_lt.mp fun hlt => h ⟨hvalid, hlt⟩)
  · rw [if_neg hvalid]

/-- A turn that needs one. -/
theorem dirTurn_loads (hv : w.vol.WellFormed)
    (h : ¬(iter.sectorBufferValid = true ∧ iter.currentEntryInSector.toNat < 16)) :
    dirTurn env iter l info w = (loadSector env iter w).bind fun r =>
      (if r.1.1 ≠ .success then pure (.done r.1.1 r.1.2 info) else nextEntry r.1.2 l info : FatM Turn) r.2 := by
  have hbps : w.vol.bytesPerSector.toNat = 512 := by rw [hv.sector]; rfl
  have hload : iter.sectorBufferValid = false ∨ w.vol.bytesPerSector.toUInt32 / 32 ≤ iter.currentEntryInSector.toUInt32 := by
    rw [perSector_le, hbps]
    by_cases hvalid : iter.sectorBufferValid = true
    · exact Or.inr (Nat.not_lt.mp fun hlt => h ⟨hvalid, hlt⟩)
    · exact Or.inl (by simpa using hvalid)
  simp only [dirTurn, bind_apply, get_apply, ok_bind, if_pos hload]

/-- The counters moved on. -/
def moved (iter : DirIter) : DirIter :=
  { iter with currentSectorInCluster := iter.currentSectorInCluster + 1, currentEntryInSector := 0 }

theorem loadSector_within (h : (iter.currentSectorInCluster + 1).toNat < w.vol.sectorsPerCluster.toNat) :
    loadSector env iter w = readSector env (moved iter) w := by
  have hin : ¬w.vol.sectorsPerCluster.toUInt32 ≤ iter.currentSectorInCluster + 1 := by
    rw [UInt32.le_iff_toNat_le, UInt8.toNat_toUInt32]
    omega
  simp only [loadSector, bind_apply, get_apply, ok_bind, if_neg hin]
  rfl

theorem loadSector_beyond (h : ¬(iter.currentSectorInCluster + 1).toNat < w.vol.sectorsPerCluster.toNat) :
    loadSector env iter w = (getNextCluster env iter.currentCluster w).bind fun r =>
      (if r.1.1 ≠ .success then pure (r.1.1, moved iter)
        else readSector env { moved iter with currentCluster := r.1.2, currentSectorInCluster := 0 } :
          FatM (FatError × DirIter)) r.2 := by
  have hout : w.vol.sectorsPerCluster.toUInt32 ≤ iter.currentSectorInCluster + 1 := by
    rw [UInt32.le_iff_toNat_le, UInt8.toNat_toUInt32]
    omega
  simp only [loadSector, bind_apply, get_apply, ok_bind, if_pos hout]
  rfl

theorem nextSector_succ {v : VolumeInfo} {x : UInt32} (h : x.toNat < v.sectorsPerCluster.toNat) :
    nextSector v q x = q * v.sectorsPerCluster.toNat + x.toNat + 1 := by
  have hlt := v.sectorsPerCluster.toNat_lt
  have hx : (x + 1).toNat = x.toNat + 1 := by
    rw [UInt32.toNat_add]
    exact Nat.mod_eq_of_lt (show x.toNat + 1 < 2 ^ 32 by omega)
  unfold nextSector
  rw [hx]
  split
  · rfl
  · rw [Nat.succ_mul]
    omega

/-- A sector that was loaded is what was ahead. -/
theorem ahead_loaded {v : VolumeInfo} (hv : v.WellFormed) (hch : Chain env v cs)
    (hc : cs[q]? = some iter.currentCluster)
    (hx : iter.currentSectorInCluster.toNat < v.sectorsPerCluster.toNat) (hvalid : iter.sectorBufferValid = true)
    (hentry : iter.currentEntryInSector = 0) (hbuf : sectorEntries iter.sectorBuffer =
      sectorEntries (env.block (fatClusterToLba v iter.currentCluster + iter.currentSectorInCluster))) :
    ahead env v cs q iter = fromSector env v cs (q * v.sectorsPerCluster.toNat + iter.currentSectorInCluster.toNat) :=
      by
  rw [fromSector_sector hv hch hc hx, UInt32.ofNat_toNat]
  unfold ahead inBuffer
  rw [if_pos hvalid, hentry, nextSector_succ hx, hbuf]
  rfl

/-- The turn on a sector that was just loaded. -/
theorem dirTurn_loaded {w' : World} {iter' : DirIter} (hv : w.vol.WellFormed) (hch : Chain env w.vol cs)
    (h : ¬(iter.sectorBufferValid = true ∧ iter.currentEntryInSector.toNat < 16))
    (hl : loadSector env iter w = .ok ((.success, iter'), w')) {q' : Nat} (hc : cs[q']? = some iter'.currentCluster)
    (hx : iter'.currentSectorInCluster.toNat < w.vol.sectorsPerCluster.toNat)
    (hp : nextSector w.vol q iter.currentSectorInCluster = q' * w.vol.sectorsPerCluster.toNat + iter'.currentSectorInCluster.toNat)
    (hvalid : iter'.sectorBufferValid = true) (hentry : iter'.currentEntryInSector = 0)
    (hsum : iter'.lfnChecksum = iter.lfnChecksum) (hbuf : sectorEntries iter'.sectorBuffer =
      sectorEntries (env.block (fatClusterToLba w.vol iter'.currentCluster + iter'.currentSectorInCluster))) :
    ∃ r e iter2, Agree e r ∧ Looked env w.vol cs q iter r q' iter2 ∧ inBuffer iter' = r :: inBuffer iter2 ∧
      iter2 = { iter' with currentEntryInSector := iter'.currentEntryInSector + 1 } ∧
      dirTurn env iter l info w = .ok (entryTurn e iter2 l info, w') := by
  have hlt : iter'.currentEntryInSector.toNat < 16 := by rw [hentry]; decide
  have ho : OnCluster cs q' iter' := ⟨hc, by omega⟩
  have hlook : Looked env w.vol cs q' iter' _ q' _ := looked_inBuffer w.vol ho hvalid hlt
  refine ⟨_, fun i => iter'.sectorBuffer (iter'.currentEntryInSector.toNat * 32 + i), _, entryBytes_agree _,
    ⟨hlook.on, ?_, hlook.valid, hsum, Or.inr ⟨inBuffer_nil h, fun _ => ⟨_, hx, ?_⟩⟩⟩, inBuffer_next hvalid hlt, rfl, ?_⟩
  · rw [← hlook.takes, ahead_loaded hv hch hc hx hvalid hentry hbuf, ← hp]
    unfold ahead
    rw [inBuffer_nil h, List.nil_append]
  · rw [UInt32.ofNat_toNat]
    exact hbuf
  · have hroom : ¬512 < iter'.currentEntryInSector.toNat * 32 + 32 := by omega
    rw [dirTurn_loads l info hv h, hl]
    simp only [ok_bind, ne_eq, not_true_eq_false, if_false, nextEntry, if_neg hroom, pure_apply]

/-- A turn whose load of a sector does not succeed. -/
theorem dirTurn_stuck {w' : World} {iter' : DirIter} {res : FatError} (hv : w.vol.WellFormed)
    (h : ¬(iter.sectorBufferValid = true ∧ iter.currentEntryInSector.toNat < 16))
    (hl : loadSector env iter w = .ok ((res, iter'), w')) (hr : res ≠ .success) :
    dirTurn env iter l info w = .ok (.done res iter' info, w') := by
  rw [dirTurn_loads l info hv h, hl]
  simp only [ok_bind, ne_eq, hr, not_false_eq_true, if_true, pure_apply]

theorem ahead_reset (v : VolumeInfo) (h : iter.currentEntryInSector = 0) : ahead env v cs q iter =
    (if iter.sectorBufferValid then sectorEntries iter.sectorBuffer else []) ++
      fromSector env v cs (nextSector v q iter.currentSectorInCluster) := by
  unfold ahead inBuffer
  rw [h]
  rfl

/-- What a turn comes to: it takes the next entry ahead, a read of it fails, or the chain ends. -/
theorem dirTurn_looks (hv : w.vol.WellFormed) (hch : Chain env w.vol cs) (ho : OnCluster cs q iter) :
    (∃ r e q' iter' w', Agree e r ∧ Looked env w.vol cs q iter r q' iter' ∧
      Fetches env w.vol cs q iter w.calls.length r q' iter' w'.calls.length ∧ w'.vol = w.vol ∧
      dirTurn env iter l info w = .ok (entryTurn e iter' l info, w')) ∨
    (FetchFails env w.vol cs q iter w.calls.length ∧ ∃ q' iter' w', OnCluster cs q' iter' ∧
      ahead env w.vol cs q' iter' = leftAhead env w.vol cs q iter w.calls.length ∧ iter'.lfnChecksum =
        iter.lfnChecksum ∧
      w'.vol = w.vol ∧ dirTurn env iter l info w = .ok (.done .readFail iter' info, w')) ∨
    (inBuffer iter = [] ∧ q + 1 = cs.length ∧ w.vol.sectorsPerCluster.toNat ≤ (iter.currentSectorInCluster + 1).toNat ∧
      ∃ w', w'.vol = w.vol ∧ dirTurn env iter l info w = .ok (.done .endOfChain (moved iter) info, w')) := by
  by_cases hbuf : iter.sectorBufferValid = true ∧ iter.currentEntryInSector.toNat < 16
  · obtain ⟨hvalid, hlt⟩ := hbuf
    have hnext := inBuffer_next hvalid hlt
    have hsome : inBuffer iter ≠ [] := by rw [hnext]; exact List.cons_ne_nil _ _
    exact Or.inl ⟨_, _, q, _, w, entryBytes_agree _, looked_inBuffer w.vol ho hvalid hlt,
      ⟨iter, if_pos hsome, hnext, rfl⟩, rfl,
      dirTurn_inBuffer l info hv hvalid hlt⟩
  have hnil := inBuffer_nil hbuf
  have hc0 := ho.cluster
  -- a read that fails leaves the iterator at the start of a sector
  have stuck : ∀ {q' iter' w'}, loadSector env iter w = .ok ((.readFail, iter'), w') →
      FetchFails env w.vol cs q iter w.calls.length → cs[q']? = some iter'.currentCluster → iter'.currentEntryInSector =
        0 →
      leftAhead env w.vol cs q iter w.calls.length = (if iter'.sectorBufferValid then sectorEntries iter'.sectorBuffer else []) ++
        fromSector env w.vol cs (nextSector w.vol q' iter'.currentSectorInCluster) →
      iter'.lfnChecksum = iter.lfnChecksum → w'.vol = w.vol →
      FetchFails env w.vol cs q iter w.calls.length ∧ ∃ q' iter' w', OnCluster cs q' iter' ∧
        ahead env w.vol cs q' iter' = leftAhead env w.vol cs q iter w.calls.length ∧ iter'.lfnChecksum =
          iter.lfnChecksum ∧
        w'.vol = w.vol ∧ dirTurn env iter l info w = .ok (.done .readFail iter' info, w') := by
    intro q' iter' w' hls hf hc hentry hleft hsum hvol
    have hon : OnCluster cs q' iter' := ⟨hc, by rw [hentry]; exact Nat.zero_le 16⟩
    have ht := dirTurn_stuck l info hv hbuf hls (by decide)
    exact ⟨hf, q', iter', w', hon, (ahead_reset w.vol hentry).trans hleft.symm, hsum, hvol, ht⟩
  by_cases hin : (iter.currentSectorInCluster + 1).toNat < w.vol.sectorsPerCluster.toNat
  · -- the next sector of the cluster
    have hls : loadSector env iter w = _ := loadSector_within hin
    cases hf : env.fails w.calls.length with
    | true =>
      rw [readSector_junk hf] at hls
      refine Or.inr (Or.inl (stuck hls ⟨hnil, Or.inl hf⟩ hc0 rfl ?_ rfl rfl))
      unfold leftAhead
      rw [if_pos hin]
      rfl
    | false =>
      rw [readSector_block hf] at hls
      obtain ⟨r, e, iter2, he, hlook, hnext, hiter, ht⟩ :=
        dirTurn_loaded l info hv hch hbuf hls hc0 hin (if_pos hin) rfl rfl rfl (sectorEntries_block _ _)
      refine Or.inl ⟨r, e, q, iter2, _, he, hlook, ⟨_, ?_, hnext, hiter⟩, ?_, ht⟩
      · unfold fetched
        rw [if_neg (not_not.mpr hnil), hf, if_neg (by decide), if_pos hin]
        rfl
      · rfl
  have hls : loadSector env iter w = _ := loadSector_beyond hin
  rw [getNextCluster_valid hv.initialized hv.sector_ne (hv.valid (hch.inRange hc0))] at hls
  cases hf : env.fails w.calls.length with
  | true =>
    -- the lookup
    rw [hf, if_pos rfl] at hls
    refine Or.inr (Or.inl (stuck hls ⟨hnil, Or.inl hf⟩ hc0 rfl ?_ rfl rfl))
    unfold leftAhead
    rw [if_neg hin, if_pos hf]
    rfl
  | false =>
    rw [hf] at hls
    rcases hch.step hc0 with ⟨d, hd, he⟩ | ⟨hlast, he⟩
    · rw [if_neg (by decide), he, fatResult_next hv (hch.inRange hd)] at hls
      simp only [ok_bind, ne_eq, not_true_eq_false, if_false] at hls
      have hpos := hv.sectors.spc_pos
      cases hf' : env.fails (w.calls.length + 1) with
      | true =>
        rw [readSector_junk (w := { w with calls := fatRead w.vol iter.currentCluster :: w.calls }) hf'] at hls
        have hlt : q + 1 < cs.length := (List.getElem?_eq_some_iff.mp hd).1
        refine Or.inr (Or.inl (stuck hls ⟨hnil, Or.inr ⟨Nat.not_lt.mp hin, hlt, hf'⟩⟩ hd rfl ?_ rfl rfl))
        unfold leftAhead
        rw [if_neg hin, if_neg (show ¬env.fails w.calls.length = true by rw [hf]; decide)]
        rfl
      | false =>
        rw [readSector_block (w := { w with calls := fatRead w.vol iter.currentCluster :: w.calls }) hf'] at hls
        obtain ⟨r, e, iter2, he, hlook, hnext, hiter, ht⟩ := dirTurn_loaded l info hv hch hbuf hls hd
          hpos (if_neg hin) rfl rfl rfl (sectorEntries_block _ _)
        refine Or.inl ⟨r, e, q + 1, iter2, _, he, hlook, ⟨_, ?_, hnext, hiter⟩, ?_, ht⟩
        · unfold fetched
          rw [if_neg (not_not.mpr hnil), hf, if_neg (by decide), if_neg hin, hd]
          dsimp only
          rw [hf', if_neg (by decide)]
          rfl
        · rfl
    · rw [if_neg (by decide), fatResult_eoc he] at hls
      have ht := dirTurn_stuck l info hv hbuf hls (show FatError.endOfChain ≠ .success by decide)
      refine Or.inr (Or.inr ⟨hnil, hlast, Nat.not_lt.mp hin, _, ?_, ht⟩)
      rfl

end

/-! ## A fresh iterator -/

section
variable {env : Env} {v : VolumeInfo} {cs : List UInt32} {c : UInt32}

theorem freshIter_on (hc : cs[0]? = some c) : OnCluster cs 0 (freshIter c) := ⟨hc, Nat.zero_le 16⟩

theorem freshIter_next (c : UInt32) : ((freshIter c).currentSectorInCluster + 1).toNat = 0 := by
  show ((0xFFFFFFFF : UInt32) + 1).toNat = 0
  decide

/-- A fresh iterator has the whole directory ahead. -/
theorem ahead_fresh (hv : v.WellFormed) : ahead env v cs 0 (freshIter c) = (records env v cs).map entryBytes := by
  have hpos := hv.sectors.spc_pos
  have hp : nextSector v 0 (freshIter c).currentSectorInCluster = 0 := by
    unfold nextSector
    rw [freshIter_next, if_pos hpos, Nat.zero_mul]
  have hnil : inBuffer (freshIter c) = [] := rfl
  unfold ahead fromSector
  rw [hnil, hp]
  rfl

end

end OpenGpos.Fat
