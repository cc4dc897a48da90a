/-
  OpenGpos.Fat.Cluster — `getNextCluster` and `fatClusterToLba`, and the chain of clusters
  they walk. `getNextCluster_valid` is the whole of the lookup: one read
  of the FAT, then what the entry says (`fatResult`).
-/
import OpenGpos.Fat.Volume

namespace OpenGpos.Fat

/-- What `getNextCluster` makes of a FAT entry with bits 28 to 31 cleared. -/
def fatResult (fatEntryValue : UInt32) : FatError × UInt32 :=
  if 0x0FFFFFF8 ≤ fatEntryValue ∧ fatEntryValue ≤ 0x0FFFFFFF then (.endOfChain, 0)
  else if fatEntryValue = 0x0FFFFFF7 then (.badCluster, 0)
  else if fatEntryValue = 0 then (.invalidCluster, 0)
  else (.success, fatEntryValue)

/-- The return value and `*next_cluster_out`, which callers look at on success only. -/
def getNextCluster (env : Env) (currentCluster : UInt32) : FatM (FatError × UInt32) := do
  let v := (← get).vol
  if !v.isInitialized then return (.notInitialized, 0)
  else if currentCluster < 2 ∨ v.totalClusters + 2 ≤ currentCluster then return (.invalidCluster, 0)
  else if v.bytesPerSector = 0 then halt .divZero
  else
    let fatEntryOffset := currentCluster * 4
    let fatSectorOffset := fatEntryOffset / v.bytesPerSector.toUInt32
    let fatByteInSectorOffset := (fatEntryOffset % v.bytesPerSector.toUInt32).toUInt16
    let fatSectorLba := v.firstFatLba + fatSectorOffset
    let (ok, fatEntryBuffer) ← sdReadPartialBlock env fatSectorLba fatByteInSectorOffset.toUInt32 (fun _ => 0) 0 4
    if !ok then return (.readFail, 0) else return fatResult (readLe32 fatEntryBuffer 0 &&& 0x0FFFFFFF)

def fatClusterToLba (v : VolumeInfo) (cluster : UInt32) : UInt32 :=
  if cluster < 2 then 0 else v.dataStartLba + (cluster - 2) * v.sectorsPerCluster.toUInt32

/-! ## Well-formed volumes -/

/-- A mounted FAT32 volume of 512-byte sectors. The bound on the clusters is that of FAT32
    itself: the numbers from 0x0FFFFFF7 on are marks. -/
structure VolumeInfo.WellFormed (v : VolumeInfo) : Prop where
  initialized : v.isInitialized = true
  sector : v.bytesPerSector = 512
  spc : v.sectorsPerCluster ≠ 0
  cluster : v.bytesPerCluster = v.sectorsPerCluster.toUInt32 * v.bytesPerSector.toUInt32
  clusters : v.totalClusters.toNat + 2 ≤ 0x0FFFFFF7

/-- Bytes in a cluster. -/
def VolumeInfo.bpc (v : VolumeInfo) : Nat := v.sectorsPerCluster.toNat * 512

/-- A cluster of the data region. -/
def VolumeInfo.InRange (v : VolumeInfo) (c : UInt32) : Prop := 2 ≤ c.toNat ∧ c.toNat < v.totalClusters.toNat + 2

instance (v : VolumeInfo) (c : UInt32) : Decidable (v.InRange c) := by unfold VolumeInfo.InRange; infer_instance

/-- The range check of `getNextCluster`; its sum wraps on a volume of 2^32 - 2 clusters. -/
def VolumeInfo.Valid (v : VolumeInfo) (c : UInt32) : Prop := ¬ (c < 2 ∨ v.totalClusters + 2 ≤ c)

instance (v : VolumeInfo) (c : UInt32) : Decidable (v.Valid c) := by unfold VolumeInfo.Valid; infer_instance

/-- Entry `c` of the first FAT. -/
def fatEntry (env : Env) (v : VolumeInfo) (c : UInt32) : UInt32 :=
  let offset := (c * 4).toNat
  let bps := v.bytesPerSector.toNat
  readLe32 (fun i => env.block (v.firstFatLba + UInt32.ofNat (offset / bps)) (offset % bps + i)) 0 &&& 0x0FFFFFFF

/-- An end-of-chain mark. -/
def IsEoc (e : UInt32) : Prop := 0x0FFFFFF8 ≤ e.toNat ∧ e.toNat ≤ 0x0FFFFFFF

/-- `cs` is the chain of its first cluster in the FAT: in range, each entry the next
    cluster, the last an end-of-chain mark. -/
def Chain (env : Env) (v : VolumeInfo) : List UInt32 → Prop
  | [] => False
  | [c] => v.InRange c ∧ IsEoc (fatEntry env v c)
  | c :: d :: cs => v.InRange c ∧ fatEntry env v c = d ∧ Chain env v (d :: cs)

/-- Byte `o` of cluster `c`. -/
def clusterByte (env : Env) (v : VolumeInfo) (c : UInt32) (o : Nat) : UInt8 :=
  env.block (v.dataStartLba + UInt32.ofNat ((c.toNat - 2) * v.sectorsPerCluster.toNat + o / 512)) (o % 512)

variable {env : Env} {v : VolumeInfo} {w : World}

theorem VolumeInfo.WellFormed.bpc_pos (hv : v.WellFormed) : 0 < v.bpc := by
  have h : v.sectorsPerCluster.toNat ≠ 0 := fun h => hv.spc (UInt8.toNat_inj.mp h)
  unfold VolumeInfo.bpc; omega

theorem VolumeInfo.WellFormed.sector_ne (hv : v.WellFormed) : v.bytesPerSector ≠ 0 := by
  rw [hv.sector]; decide

theorem VolumeInfo.WellFormed.bytesPerCluster_toNat (hv : v.WellFormed) : v.bytesPerCluster.toNat = v.bpc := by
  have hlt := v.sectorsPerCluster.toNat_lt
  rw [hv.cluster, UInt32.toNat_mul, UInt8.toNat_toUInt32, hv.sector]
  show _ * 512 % 2 ^ 32 = _
  rw [Nat.mod_eq_of_lt (by omega)]; rfl

theorem VolumeInfo.bpc_le (v : VolumeInfo) : v.bpc ≤ 255 * 512 := by
  have hlt := v.sectorsPerCluster.toNat_lt
  unfold VolumeInfo.bpc; omega

/-! ## The lookup -/

/-- The read that looks `c` up. -/
def fatRead (v : VolumeInfo) (c : UInt32) : SdCall :=
  let offset := (c * 4).toNat
  let bps := v.bytesPerSector.toNat
  .readPartialBlock (v.firstFatLba + UInt32.ofNat (offset / bps)) (UInt32.ofNat (offset % bps)) 4

theorem readLe32_blit (data : Nat → UInt8) : readLe32 (blit (fun _ => 0) 0 4 data) 0 = readLe32 data 0 := by
  simp [readLe32, blit]

theorem VolumeInfo.WellFormed.valid (hv : v.WellFormed) {c : UInt32} (hc : v.InRange c) : v.Valid c := by
  obtain ⟨h2, hlt⟩ := hc
  have hcl := hv.clusters
  have htc : (v.totalClusters + 2).toNat = v.totalClusters.toNat + 2 := by
    rw [UInt32.toNat_add]
    show (_ + 2) % 2 ^ 32 = _
    omega
  unfold VolumeInfo.Valid
  rw [UInt32.lt_iff_toNat_lt, UInt32.le_iff_toNat_le, htc]
  show ¬ (c.toNat < 2 ∨ _)
  omega

theorem getNextCluster_valid (hi : w.vol.isInitialized = true) (hs : w.vol.bytesPerSector ≠ 0) {c : UInt32}
    (hc : w.vol.Valid c) : getNextCluster env c w = .ok (
      if env.fails w.calls.length then (.readFail, 0) else fatResult (fatEntry env w.vol c),
      { w with calls := fatRead w.vol c :: w.calls }) := by
  unfold VolumeInfo.Valid at hc
  let bps := w.vol.bytesPerSector.toNat
  have hbps : 0 < bps := Nat.pos_of_ne_zero fun h => hs (UInt16.toNat_inj.mp h)
  have hlt : bps < 2 ^ 16 := w.vol.bytesPerSector.toNat_lt
  have hmod : (c * 4).toNat % bps < bps := Nat.mod_lt _ hbps
  have hlba : c * 4 / w.vol.bytesPerSector.toUInt32 = UInt32.ofNat ((c * 4).toNat / bps) := by
    apply UInt32.toNat_inj.mp
    have hle : (c * 4).toNat / bps ≤ (c * 4).toNat := Nat.div_le_self _ _
    have := (c * 4).toNat_lt
    rw [UInt32.toNat_div, UInt32.toNat_ofNat', UInt16.toNat_toUInt32, Nat.mod_eq_of_lt (by omega)]
  have hoff : (c * 4 % w.vol.bytesPerSector.toUInt32).toUInt16.toUInt32 = UInt32.ofNat ((c * 4).toNat % bps) := by
    apply UInt32.toNat_inj.mp
    rw [UInt16.toNat_toUInt32, UInt32.toNat_toUInt16, UInt32.toNat_mod, UInt32.toNat_ofNat', UInt16.toNat_toUInt32]
    show (c * 4).toNat % bps % 2 ^ 16 = _
    omega
  have hoff' : (UInt32.ofNat ((c * 4).toNat % bps)).toUInt16.toNat = (c * 4).toNat % bps := by
    rw [UInt32.toNat_toUInt16, UInt32.toNat_ofNat']; omega
  have h4' : (4 : UInt32).toUInt16.toNat = 4 := rfl
  simp only [getNextCluster, bind_apply, get_apply, ok_bind, hi, Bool.not_true, Bool.false_eq_true, if_false,
    hc, hs, hlba, hoff, sdReadPartialBlock, hoff', h4']
  by_cases hf : env.fails w.calls.length = true
  · simp [sdRead_fail hf, hf, fatRead, bps]
  · have hf' : env.fails w.calls.length = false := by simpa using hf
    rw [sdRead_ok hf']
    simp [hf', readLe32_blit, fatRead, fatEntry, bps]

theorem getNextCluster_invalid (hi : w.vol.isInitialized = true) {c : UInt32} (hc : ¬ w.vol.Valid c) :
    getNextCluster env c w = .ok ((.invalidCluster, 0), w) := by
  unfold VolumeInfo.Valid at hc
  simp only [not_not] at hc
  simp [getNextCluster, hi, hc]

theorem getNextCluster_eq (hv : w.vol.WellFormed) {c : UInt32} (hc : w.vol.InRange c) :
    getNextCluster env c w = .ok (
      if env.fails w.calls.length then (.readFail, 0) else fatResult (fatEntry env w.vol c),
      { w with calls := fatRead w.vol c :: w.calls }) :=
  getNextCluster_valid hv.initialized hv.sector_ne (hv.valid hc)

theorem fatResult_eoc {e : UInt32} (he : IsEoc e) : fatResult e = (.endOfChain, 0) := by
  have h : 0x0FFFFFF8 ≤ e ∧ e ≤ 0x0FFFFFFF := by
    rw [UInt32.le_iff_toNat_le, UInt32.le_iff_toNat_le]; exact he
  simp [fatResult, h]

theorem fatResult_next (hv : v.WellFormed) {c : UInt32} (hc : v.InRange c) : fatResult c = (.success, c) := by
  obtain ⟨h2, hlt⟩ := hc
  have hcl := hv.clusters
  have h1 : ¬ (0x0FFFFFF8 ≤ c ∧ c ≤ 0x0FFFFFFF) := by
    rw [UInt32.le_iff_toNat_le]
    show ¬ (0x0FFFFFF8 ≤ c.toNat ∧ _)
    omega
  have h2 : c ≠ 0x0FFFFFF7 := by
    intro e
    have : c.toNat = 0x0FFFFFF7 := by rw [e]; rfl
    omega
  have h3 : c ≠ 0 := by
    intro e
    have : c.toNat = 0 := by rw [e]; rfl
    omega
  simp only [fatResult, h1, h2, h3, if_false]

/-! ## Chains -/

theorem Chain.inRange {cs : List UInt32} (h : Chain env v cs) {k : Nat} {c : UInt32} (hk : cs[k]? = some c) :
    v.InRange c := by
  induction cs generalizing k with
  | nil => cases h
  | cons a cs ih =>
    cases cs with
    | nil =>
      cases k with
      | zero => cases hk; exact h.1
      | succ k => cases hk
    | cons d cs =>
      cases k with
      | zero => cases hk; exact h.1
      | succ k => exact ih h.2.2 (by simpa using hk)

/-- Behind a cluster of the chain is the next one, or its end. -/
theorem Chain.step {cs : List UInt32} (h : Chain env v cs) {k : Nat} {c : UInt32} (hk : cs[k]? = some c) :
    (∃ d, cs[k + 1]? = some d ∧ fatEntry env v c = d) ∨ k + 1 = cs.length ∧ IsEoc (fatEntry env v c) := by
  induction cs generalizing k with
  | nil => cases h
  | cons a cs ih =>
    cases cs with
    | nil =>
      cases k with
      | zero => cases hk; exact Or.inr ⟨rfl, h.2⟩
      | succ k => cases hk
    | cons d cs =>
      cases k with
      | zero => cases hk; exact Or.inl ⟨d, rfl, h.2.1⟩
      | succ k =>
        rcases ih h.2.2 (k := k) (by simpa using hk) with ⟨e, he, hf⟩ | ⟨hl, he⟩
        · exact Or.inl ⟨e, by simpa using he, hf⟩
        · exact Or.inr ⟨by simp only [List.length_cons] at hl ⊢; omega, he⟩

/-- Looking up a cluster of a chain gives the next one, or the end, unless the read fails. -/
theorem getNextCluster_chain (hv : w.vol.WellFormed) {cs : List UInt32} (h : Chain env w.vol cs) {k : Nat} {c : UInt32}
    (hk : cs[k]? = some c) : getNextCluster env c w = .ok (
      if env.fails w.calls.length then (.readFail, 0)
      else match cs[k + 1]? with
        | some d => (.success, d)
        | none => (.endOfChain, 0),
      { w with calls := fatRead w.vol c :: w.calls }) := by
  rw [getNextCluster_eq hv (h.inRange hk)]
  rcases h.step hk with ⟨d, hd, he⟩ | ⟨hl, he⟩
  · rw [he, fatResult_next hv (h.inRange hd), hd]
  · rw [fatResult_eoc he, List.getElem?_eq_none (by omega)]

end OpenGpos.Fat
