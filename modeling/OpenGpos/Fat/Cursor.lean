/-
  OpenGpos.Fat.Cursor — where a directory iterator stands, and one turn of the loop of
  `fat_read_next_dir_entry` as a function of it, whatever SD reads fail: the turn takes
  the next entry of the sector (`dirTurn_here`), of the next sector (`dirTurn_sector`) or of
  the next cluster (`dirTurn_link`), or it ends the call.
-/
import OpenGpos.Fat.Entry

namespace OpenGpos.Fat

/-- A mounted volume with sectors and clusters. -/
structure VolumeInfo.Sectors (v : VolumeInfo) : Prop where
  initialized : v.isInitialized = true
  sector : v.bytesPerSector ≠ 0
  spc : v.sectorsPerCluster ≠ 0

theorem VolumeInfo.WellFormed.sectors {v : VolumeInfo} (hv : v.WellFormed) : v.Sectors :=
  ⟨hv.initialized, hv.sector_ne, hv.spc⟩

theorem VolumeInfo.Sectors.spc_pos {v : VolumeInfo} (hv : v.Sectors) : 0 < v.sectorsPerCluster.toNat :=
  Nat.pos_of_ne_zero fun h => hv.spc (UInt8.toNat_inj.mp h)

/-- The FAT leads from `c` to `d`. -/
def Links (env : Env) (v : VolumeInfo) (c d : UInt32) : Prop := v.Valid c ∧ fatResult (fatEntry env v c) = (.success, d)

/-- What `fat_init_root_dir_iterator` sets up on cluster `c`. -/
structure Fresh (c : UInt32) (iter : DirIter) : Prop where
  cluster : iter.currentCluster = c
  sector : iter.currentSectorInCluster = 0xFFFFFFFF
  valid : iter.sectorBufferValid = false

/-- The iterator has sector `s` of cluster `c` in its buffer and `j` entries of it behind it. -/
structure Inside (env : Env) (v : VolumeInfo) (c : UInt32) (s j : Nat) (iter : DirIter) : Prop where
  cluster : iter.currentCluster = c
  sector : iter.currentSectorInCluster.toNat = s
  entry : iter.currentEntryInSector.toNat = j
  valid : iter.sectorBufferValid = true
  buffer : ∀ i < 512, iter.sectorBuffer i = env.block (fatClusterToLba v c + UInt32.ofNat s) i

/-- A turn that looks at entry `k` of sector `s` of cluster `c`. -/
def Takes (env : Env) (iter : DirIter) (l : LfnLocals) (info : FileInfo) (w : World) (c : UInt32) (s k : Nat) : Prop :=
  ∃ e iter' w', Agree e (dirEntry env w.vol c s k) ∧ Inside env w.vol c s (k + 1) iter' ∧ w'.vol = w.vol ∧
    iter'.lfnChecksum = iter.lfnChecksum ∧ dirTurn env iter l info w = .ok (entryTurn e iter' l info, w')

/-- A turn that ends the call before it looks at an entry. -/
def StopsWith (env : Env) (iter : DirIter) (l : LfnLocals) (info : FileInfo) (w : World) (res : FatError) : Prop :=
  ∃ iter' w', w'.vol = w.vol ∧ dirTurn env iter l info w = .ok (.done res iter' info, w')

theorem freshIter_fresh (c : UInt32) : Fresh c (freshIter c) := ⟨rfl, rfl, rfl⟩

section
variable {env : Env} {w : World} {iter : DirIter} {c : UInt32} {s j : Nat} (l : LfnLocals) (info : FileInfo)

/-! ## Inside a sector -/

theorem nextEntry_inside (hi : Inside env w.vol c s j iter) (hj : j < 16) :
    ∃ e iter', Agree e (dirEntry env w.vol c s j) ∧ Inside env w.vol c s (j + 1) iter' ∧
      iter'.lfnChecksum = iter.lfnChecksum ∧ nextEntry iter l info w = .ok (entryTurn e iter' l info, w) := by
  refine ⟨fun i => iter.sectorBuffer (iter.currentEntryInSector.toNat * 32 + i),
    { iter with currentEntryInSector := iter.currentEntryInSector + 1 }, ?_, ?_, rfl, ?_⟩
  · intro i hlt
    have hent := hi.entry
    show iter.sectorBuffer _ = env.block _ _
    rw [hi.buffer _ (by omega), hent]
  · refine ⟨hi.cluster, hi.sector, ?_, hi.valid, hi.buffer⟩
    show (iter.currentEntryInSector + 1).toNat = j + 1
    rw [UInt16.toNat_add, hi.entry]
    show (j + 1) % 2 ^ 16 = j + 1
    omega
  · have hroom : ¬ 512 < iter.currentEntryInSector.toNat * 32 + 32 := by
      rw [hi.entry]; omega
    simp only [nextEntry, if_neg hroom, pure_apply]

/-- The number of entries that the code takes from a sector. -/
theorem perSector_le {v : VolumeInfo} {iter : DirIter} : v.bytesPerSector.toUInt32 / 32 ≤ iter.currentEntryInSector.toUInt32 ↔
    v.bytesPerSector.toNat / 32 ≤ iter.currentEntryInSector.toNat := by
  rw [UInt32.le_iff_toNat_le, UInt32.toNat_div, UInt16.toNat_toUInt32, UInt16.toNat_toUInt32]
  rfl

theorem dirTurn_here (hi : Inside env w.vol c s j iter) (hj : j < w.vol.bytesPerSector.toNat / 32) (h16 : j < 16) :
    Takes env iter l info w c s j := by
  obtain ⟨e, iter', he, hi', hk, hn⟩ := nextEntry_inside l info hi h16
  refine ⟨e, iter', w, he, hi', rfl, hk, ?_⟩
  have hload : ¬ (iter.sectorBufferValid = false ∨
      w.vol.bytesPerSector.toUInt32 / 32 ≤ iter.currentEntryInSector.toUInt32) := by
    rw [perSector_le, hi.valid, hi.entry]
    simp only [Bool.true_eq_false, false_or]
    omega
  simp only [dirTurn, bind_apply, get_apply, ok_bind, if_neg hload, hn]

/-! ## The next sector -/

theorem readSector_fail (hf : env.fails w.calls.length = true) (iter : DirIter) : ∃ iter' w', w'.vol = w.vol ∧
    readSector env iter w = .ok ((.readFail, iter'), w') := by
  let lba := fatClusterToLba w.vol iter.currentCluster + iter.currentSectorInCluster
  let old := iter.sectorBuffer
  refine ⟨{ iter with sectorBuffer := blit old 0 512 fun i => env.junk w.calls.length i (old (0 + i)) },
    { w with calls := .readBlock lba :: w.calls }, rfl, ?_⟩
  simp only [readSector, bind_apply, get_apply, ok_bind, sdReadBlock, sdRead_fail hf]
  rfl

theorem readSector_ok (hf : env.fails w.calls.length = false) (hc : iter.currentCluster = c)
    (hs : iter.currentSectorInCluster.toNat = s) (he : iter.currentEntryInSector = 0) :
    ∃ iter', Inside env w.vol c s 0 iter' ∧ iter'.lfnChecksum = iter.lfnChecksum ∧
      readSector env iter w = .ok ((.success, iter'),
        { w with calls := .readBlock (fatClusterToLba w.vol c + UInt32.ofNat s) :: w.calls }) := by
  have hlba : fatClusterToLba w.vol iter.currentCluster + iter.currentSectorInCluster =
      fatClusterToLba w.vol c + UInt32.ofNat s := by
    rw [← hc, ← hs, UInt32.ofNat_toNat]
  refine ⟨{ iter with
    sectorBuffer := blit iter.sectorBuffer 0 512 (env.block (fatClusterToLba w.vol c + UInt32.ofNat s))
    sectorBufferValid := true }, ⟨hc, hs, ?_, rfl, ?_⟩, rfl, ?_⟩
  · show iter.currentEntryInSector.toNat = 0
    rw [he]; rfl
  · intro i hlt
    simp [blit, hlt]
  · simp only [readSector, bind_apply, get_apply, ok_bind, sdReadBlock, sdRead_ok hf, hlba]
    rfl

/-- Once a sector is in the buffer the turn takes its first entry. -/
theorem dirTurn_load (hload : iter.sectorBufferValid = false ∨ w.vol.bytesPerSector.toNat / 32 ≤ iter.currentEntryInSector.toNat)
    {iter1 : DirIter} {w1 : World} (hl : loadSector env iter w = .ok ((.success, iter1), w1)) (hvol : w1.vol = w.vol)
    (hi : Inside env w.vol c s 0 iter1) (hk : iter1.lfnChecksum = iter.lfnChecksum) :
    Takes env iter l info w c s 0 := by
  rw [← hvol] at hi
  obtain ⟨e, iter', he, hi', hk', hn⟩ := nextEntry_inside l info hi (by omega)
  rw [hvol] at he hi'
  refine ⟨e, iter', w1, he, hi', hvol, hk'.trans hk, ?_⟩
  rw [← perSector_le] at hload
  simp only [dirTurn, bind_apply, get_apply, ok_bind, if_pos hload, hl, ne_eq, not_true_eq_false, if_false, hn]

theorem dirTurn_stop (hload : iter.sectorBufferValid = false ∨ w.vol.bytesPerSector.toNat / 32 ≤ iter.currentEntryInSector.toNat)
    {iter1 : DirIter} {w1 : World} {res : FatError} (hl : loadSector env iter w = .ok ((res, iter1), w1))
    (hvol : w1.vol = w.vol) (hr : res ≠ .success) : StopsWith env iter l info w res := by
  refine ⟨iter1, w1, hvol, ?_⟩
  rw [← perSector_le] at hload
  simp only [dirTurn, bind_apply, get_apply, ok_bind, if_pos hload, hl, ne_eq, hr, not_false_eq_true, if_true,
    pure_apply]

/-- The next sector `s` is one of the same cluster. -/
theorem dirTurn_sector (env : Env)
    (hload : iter.sectorBufferValid = false ∨ w.vol.bytesPerSector.toNat / 32 ≤ iter.currentEntryInSector.toNat)
    (hc : iter.currentCluster = c) (hs : (iter.currentSectorInCluster + 1).toNat = s)
    (hlt : s < w.vol.sectorsPerCluster.toNat) :
    if env.fails w.calls.length then StopsWith env iter l info w .readFail else Takes env iter l info w c s 0 := by
  let iter0 : DirIter := { iter with
    currentSectorInCluster := iter.currentSectorInCluster + 1
    currentEntryInSector := 0 }
  have hin : ¬ w.vol.sectorsPerCluster.toUInt32 ≤ iter.currentSectorInCluster + 1 := by
    rw [UInt32.le_iff_toNat_le, UInt8.toNat_toUInt32, hs]; omega
  have hls : loadSector env iter w = readSector env iter0 w := by
    simp only [loadSector, bind_apply, get_apply, ok_bind, if_neg hin]
    rfl
  by_cases hf : env.fails w.calls.length = true
  · rw [if_pos hf]
    obtain ⟨iter', w', hvol, hr⟩ := readSector_fail hf iter0
    exact dirTurn_stop l info hload (hls.trans hr) hvol (by decide)
  · rw [if_neg hf]
    obtain ⟨iter', hi, hk, hr⟩ := readSector_ok (by simpa using hf) (show iter0.currentCluster = c from hc) hs rfl
    exact dirTurn_load l info hload (hls.trans hr) rfl hi hk

/-- The sectors of the cluster are behind the iterator. -/
theorem dirTurn_link (hv : w.vol.Sectors) (hi : Inside env w.vol c s j iter)
    (hload : w.vol.bytesPerSector.toNat / 32 ≤ j) (hs : s + 1 = w.vol.sectorsPerCluster.toNat) :
    (¬ w.vol.Valid c ∧ StopsWith env iter l info w .invalidCluster) ∨
    (w.vol.Valid c ∧ env.fails w.calls.length = true ∧ StopsWith env iter l info w .readFail) ∨
    (w.vol.Valid c ∧ env.fails w.calls.length = false ∧
      if (fatResult (fatEntry env w.vol c)).1 ≠ .success then
        StopsWith env iter l info w (fatResult (fatEntry env w.vol c)).1
      else if env.fails (w.calls.length + 1) then StopsWith env iter l info w .readFail
      else Takes env iter l info w (fatResult (fatEntry env w.vol c)).2 0 0) := by
  have hload' : iter.sectorBufferValid = false ∨ w.vol.bytesPerSector.toNat / 32 ≤ iter.currentEntryInSector.toNat :=
    Or.inr (by rw [hi.entry]; exact hload)
  have hlt := w.vol.sectorsPerCluster.toNat_lt
  have hout : w.vol.sectorsPerCluster.toUInt32 ≤ iter.currentSectorInCluster + 1 := by
    have hsec := hi.sector
    have h1 : (iter.currentSectorInCluster + 1).toNat = s + 1 := by
      rw [UInt32.toNat_add, hsec]
      show (s + 1) % 2 ^ 32 = s + 1
      omega
    rw [UInt32.le_iff_toNat_le, UInt8.toNat_toUInt32, h1]; omega
  let behind : DirIter := { iter with
    currentCluster := c
    currentSectorInCluster := iter.currentSectorInCluster + 1
    currentEntryInSector := 0 }
  let iter0 (d : UInt32) : DirIter := { iter with
    currentCluster := d
    currentSectorInCluster := 0
    currentEntryInSector := 0 }
  have hls : loadSector env iter w = (getNextCluster env c w).bind fun r =>
      (if r.1.1 ≠ .success then pure (r.1.1, behind) else readSector env (iter0 r.1.2) : FatM (FatError × DirIter)) r.2 := by
    simp only [loadSector, bind_apply, get_apply, ok_bind, if_pos hout, hi.cluster]
    rfl
  by_cases hval : w.vol.Valid c
  case neg =>
    rw [getNextCluster_invalid hv.initialized hval] at hls
    exact Or.inl ⟨hval, dirTurn_stop l info hload' hls rfl (by decide)⟩
  rw [getNextCluster_valid hv.initialized hv.sector hval] at hls
  by_cases hf : env.fails w.calls.length = true
  · rw [if_pos hf] at hls
    exact Or.inr (Or.inl ⟨hval, hf, dirTurn_stop l info hload' hls rfl (by decide)⟩)
  rw [if_neg hf] at hls
  refine Or.inr (Or.inr ⟨hval, by simpa using hf, ?_⟩)
  by_cases hr : (fatResult (fatEntry env w.vol c)).1 = .success
  case neg =>
    rw [if_pos hr]
    simp only [ok_bind, ne_eq, hr, not_false_eq_true, if_true, pure_apply] at hls
    exact dirTurn_stop l info hload' hls rfl hr
  rw [if_neg (by simpa using hr)]
  simp only [ok_bind, ne_eq, hr, not_true_eq_false, if_false] at hls
  by_cases hf' : env.fails (w.calls.length + 1) = true
  · rw [if_pos hf']
    obtain ⟨iter', w', hvol, e⟩ := readSector_fail (w := { w with calls := fatRead w.vol c :: w.calls }) hf' _
    exact dirTurn_stop l info hload' (hls.trans e) hvol (by decide)
  · rw [if_neg hf']
    let d := (fatResult (fatEntry env w.vol c)).2
    obtain ⟨iter', hi', hk, e⟩ := readSector_ok (w := { w with calls := fatRead w.vol c :: w.calls })
      (by simpa using hf') (show (iter0 d).currentCluster = d from rfl) rfl rfl
    exact dirTurn_load l info hload' (hls.trans e) rfl hi' hk

end

end OpenGpos.Fat
