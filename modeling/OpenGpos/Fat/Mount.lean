/-
  OpenGpos.Fat.Mount — what `fat32_init` lets through. `parseBPB` checks nothing it reads:
  `mount_ok_iff` says on which cards the mount neither divides by zero nor accepts a
  geometry that the rest of the driver cannot work with.
-/
import OpenGpos.Fat.Volume

namespace OpenGpos.Fat

/-- A geometry on which every later operation is defined. -/
structure VolumeInfo.Geometry (v : VolumeInfo) : Prop where
  bytesPerSector : v.bytesPerSector = 512
  sectorsPerCluster : v.sectorsPerCluster ≠ 0
  meta_fits : v.reservedSectorCount.toNat + v.numFats.toNat * v.fatSizeSectors.toNat ≤ v.totalSectors.toNat
  data_fits : v.dataStartLba.toNat + v.totalClusters.toNat * v.sectorsPerCluster.toNat ≤
    v.volumeStartLba.toNat + v.totalSectors.toNat

/-- The mount returns, and what it accepts is a sound geometry. -/
def MountSafe (env : Env) (w : World) : Prop :=
  ∃ ok w', fat32Init env w = .ok (ok, w') ∧ (ok = true → w'.vol.Geometry)

/-- What the reads of the mount put in their buffers. -/
def mbrData (env : Env) : Buf := blit (fun _ => 0) 0 66 fun i => env.block 0 (446 + i)

def bpbData (env : Env) (lba : UInt32) : Buf := blit (fun _ => 0) 0 41 fun i => env.block lba (0x0B + i)

/-- The partition entry that `parseMBR` takes, if the sector is a boot record. -/
def mbrPartition (env : Env) : Option Nat :=
  if readLe16 (mbrData env) 64 ≠ 0xAA55 then none else [0, 1, 2, 3].find? (isFat32Partition (mbrData env))

/-- Entry `i` of the card's partition table and the boot sector it points at describe a
    volume of 512-byte sectors with clusters, whose reserved sectors and FATs fit. -/
def BpbSound (env : Env) (i : Nat) : Prop :=
  let start := readLe32 (mbrData env) (i * 16 + 8)
  let total := readLe32 (mbrData env) (i * 16 + 12)
  let bpb := bpbData env start
  readLe16 bpb 0 = 512 ∧ bpb 0x02 ≠ 0 ∧
    (readLe16 bpb 0x03).toNat + (bpb 0x05).toNat * (readLe32 bpb 25).toNat ≤ total.toNat

/-- One of the two reads fails, or there is no partition to mount, or its boot sector is sound. -/
def MountCondition (env : Env) (w : World) : Prop :=
  env.fails w.calls.length = true ∨ mbrPartition env = none ∨ env.fails (w.calls.length + 1) = true ∨
    ∃ i, mbrPartition env = some i ∧ BpbSound env i

theorem parseMBR_eq (env : Env) (w : World) : ∃ cs, cs.length = w.calls.length + 1 ∧
    parseMBR env w = .ok (
      if env.fails w.calls.length then (false, { w with calls := cs })
      else match mbrPartition env with
        | none => (false, { w with calls := cs })
        | some i => (true, { w with
            calls := cs
            vol := { w.vol with
              totalSectors := readLe32 (mbrData env) (i * 16 + 12)
              volumeStartLba := readLe32 (mbrData env) (i * 16 + 8) } })) := by
  refine ⟨.readPartialBlock 0 446 66 :: w.calls, rfl, ?_⟩
  by_cases hf : env.fails w.calls.length = true
  · simp [parseMBR, sdReadPartialBlock, sdRead_fail hf, hf]
  · have hf' : env.fails w.calls.length = false := by simpa using hf
    have hr : sdReadPartialBlock env 0 446 (fun _ => 0) 0 66 w =
        .ok ((true, mbrData env), { w with calls := .readPartialBlock 0 446 66 :: w.calls }) := sdRead_ok hf' _ _ _ _ _
    simp only [parseMBR, bind_apply, hr, ok_bind, hf', mbrPartition]
    by_cases hs : readLe16 (mbrData env) 64 ≠ 0xAA55
    · simp [hs]
    · simp only [hs, if_false]
      cases [0, 1, 2, 3].find? (isFat32Partition (mbrData env)) <;> rfl

/-- The volume information after a boot sector was taken in. -/
def bpbVolume (v : VolumeInfo) (bpb : Buf) : VolumeInfo :=
  let f := bpbFields v bpb
  { f with
    totalClusters := (f.totalSectors - (f.reservedSectorCount.toUInt32 + f.numFats.toUInt32 * f.fatSizeSectors)) /
      f.sectorsPerCluster.toUInt32
    isInitialized := true }

theorem parseBPB_eq (env : Env) (w : World) : ∃ cs, cs.length = w.calls.length + 1 ∧
    parseBPB env w =
      if env.fails w.calls.length then .ok (false, { w with calls := cs })
      else if bpbData env w.vol.volumeStartLba 0x02 = 0 then .error .divZero
      else .ok (true, { w with calls := cs, vol := bpbVolume w.vol (bpbData env w.vol.volumeStartLba) }) := by
  refine ⟨.readPartialBlock w.vol.volumeStartLba 0x0B 41 :: w.calls, rfl, ?_⟩
  by_cases hf : env.fails w.calls.length = true
  · simp [parseBPB, sdReadPartialBlock, sdRead_fail hf, hf]
  · have hf' : env.fails w.calls.length = false := by simpa using hf
    have hr : sdReadPartialBlock env w.vol.volumeStartLba 0x0B (fun _ => 0) 0 41 w =
        .ok ((true, bpbData env w.vol.volumeStartLba),
          { w with calls := .readPartialBlock w.vol.volumeStartLba 0x0B 41 :: w.calls }) := sdRead_ok hf' _ _ _ _ _
    have hspc : (bpbFields w.vol (bpbData env w.vol.volumeStartLba)).sectorsPerCluster =
        bpbData env w.vol.volumeStartLba 0x02 := rfl
    simp only [parseBPB, bind_apply, get_apply, hr, ok_bind, hf']
    by_cases h0 : bpbData env w.vol.volumeStartLba 0x02 = 0
    · simp [hspc, h0]
    · simp [hspc, h0, bpbVolume]

/-- The volume a mount of partition entry `i` stores. -/
def mountedVolume (env : Env) (v : VolumeInfo) (i : Nat) : VolumeInfo :=
  let start := readLe32 (mbrData env) (i * 16 + 8)
  bpbVolume { v with totalSectors := readLe32 (mbrData env) (i * 16 + 12), volumeStartLba := start } (bpbData env start)

/-- The ways a mount can go. -/
theorem fat32Init_cases (env : Env) (w : World) :
    ((env.fails w.calls.length = true ∨ mbrPartition env = none ∨ env.fails (w.calls.length + 1) = true) ∧
      ∃ w', fat32Init env w = .ok (false, w')) ∨
    ∃ i, mbrPartition env = some i ∧ env.fails w.calls.length = false ∧ env.fails (w.calls.length + 1) = false ∧
      if bpbData env (readLe32 (mbrData env) (i * 16 + 8)) 0x02 = 0 then fat32Init env w = .error .divZero
      else ∃ cs, fat32Init env w = .ok (true, { w with
        calls := cs, vol := mountedVolume env w.vol i, handles := fun i => { w.handles i with isFree := true } }) := by
  obtain ⟨cs, hcs, e⟩ := parseMBR_eq env w
  by_cases hf : env.fails w.calls.length = true
  · exact Or.inl ⟨Or.inl hf, _, by simp [fat32Init, e, hf]; rfl⟩
  cases hp : mbrPartition env with
  | none => exact Or.inl ⟨Or.inr (Or.inl rfl), _, by simp [fat32Init, e, hf, hp]; rfl⟩
  | some i =>
    let w1 : World := { w with
      calls := cs
      vol := { w.vol with
        totalSectors := readLe32 (mbrData env) (i * 16 + 12)
        volumeStartLba := readLe32 (mbrData env) (i * 16 + 8) } }
    obtain ⟨cs', hcs', e'⟩ := parseBPB_eq env w1
    have hl : w1.calls.length = w.calls.length + 1 := hcs
    have e1 : parseMBR env w = .ok (true, w1) := by simp [e, hf, hp, w1]
    by_cases hf' : env.fails (w.calls.length + 1) = true
    · exact Or.inl ⟨Or.inr (Or.inr hf'), _, by simp [fat32Init, e1, e', hl, hf']; rfl⟩
    · refine Or.inr ⟨i, rfl, by simpa using hf, by simpa using hf', ?_⟩
      rw [hl] at e'
      by_cases h0 : bpbData env (readLe32 (mbrData env) (i * 16 + 8)) 0x02 = 0
      · rw [if_pos h0]
        simp [fat32Init, e1, e', hf', w1, h0]
      · rw [if_neg h0]
        exact ⟨cs', by simp [fat32Init, e1, e', hf', w1, h0, mountedVolume]⟩

/-- The clusters that a mount counts fit behind the reserved sectors and the FATs. -/
theorem bpbVolume_clusters (v : VolumeInfo) (bpb : Buf) :
    let m := bpbVolume v bpb
    let used := m.reservedSectorCount.toNat + m.numFats.toNat * m.fatSizeSectors.toNat
    used ≤ m.totalSectors.toNat → used + m.totalClusters.toNat * m.sectorsPerCluster.toNat ≤ m.totalSectors.toNat := by
  intro m used hused
  have hlt := m.totalSectors.toNat_lt
  have hm : (m.reservedSectorCount.toUInt32 + m.numFats.toUInt32 * m.fatSizeSectors).toNat = used := by
    rw [UInt32.toNat_add, UInt32.toNat_mul, UInt16.toNat_toUInt32, UInt8.toNat_toUInt32,
      Nat.mod_eq_of_lt (by omega : m.numFats.toNat * m.fatSizeSectors.toNat < 2 ^ 32), Nat.mod_eq_of_lt (by omega)]
  have hsub : (m.totalSectors - (m.reservedSectorCount.toUInt32 + m.numFats.toUInt32 * m.fatSizeSectors)).toNat =
      m.totalSectors.toNat - used := by
    rw [UInt32.toNat_sub_of_le _ _ (UInt32.le_iff_toNat_le.mpr (by rw [hm]; exact hused)), hm]
  have htc : m.totalClusters.toNat = (m.totalSectors.toNat - used) / m.sectorsPerCluster.toNat := by
    rw [← hsub]
    show (UInt32.toNat (_ / _)) = _
    rw [UInt32.toNat_div, UInt8.toNat_toUInt32]
    rfl
  have hmul := Nat.div_mul_le_self (m.totalSectors.toNat - used) m.sectorsPerCluster.toNat
  rw [htc]
  omega

/-- What a sound boot sector leads to. -/
theorem mounted_geometry (env : Env) (v : VolumeInfo) (i : Nat) :
    (mountedVolume env v i).Geometry ↔ BpbSound env i := by
  constructor
  · exact fun h => ⟨h.bytesPerSector, h.sectorsPerCluster, h.meta_fits⟩
  · rintro ⟨h1, h2, h3⟩
    refine ⟨h1, h2, h3, ?_⟩
    let m := mountedVolume env v i
    have h3' : m.reservedSectorCount.toNat + m.numFats.toNat * m.fatSizeSectors.toNat ≤ m.totalSectors.toNat := h3
    have hcl : m.reservedSectorCount.toNat + m.numFats.toNat * m.fatSizeSectors.toNat +
        m.totalClusters.toNat * m.sectorsPerCluster.toNat ≤ m.totalSectors.toNat := bpbVolume_clusters _ _ h3
    have hdata : m.dataStartLba.toNat ≤ m.volumeStartLba.toNat +
        (m.reservedSectorCount.toNat + m.numFats.toNat * m.fatSizeSectors.toNat) := by
      have e : m.dataStartLba = m.volumeStartLba + m.reservedSectorCount.toUInt32 + m.numFats.toUInt32 * m.fatSizeSectors := rfl
      rw [e, UInt32.toNat_add, UInt32.toNat_add, UInt32.toNat_mul, UInt16.toNat_toUInt32, UInt8.toNat_toUInt32]
      omega
    show m.dataStartLba.toNat + m.totalClusters.toNat * m.sectorsPerCluster.toNat ≤
      m.volumeStartLba.toNat + m.totalSectors.toNat
    omega

/-- The mount is safe on exactly the cards whose boot sector is sound, and where it stops
    before looking at one. -/
theorem mount_ok_iff (env : Env) (w : World) : MountSafe env w ↔ MountCondition env w := by
  unfold MountSafe MountCondition
  rcases fat32Init_cases env w with ⟨hc, w', e⟩ | ⟨i, hp, hf, hf', h⟩
  · constructor
    · intro _
      rcases hc with h | h | h
      · exact Or.inl h
      · exact Or.inr (Or.inl h)
      · exact Or.inr (Or.inr (Or.inl h))
    · intro _
      exact ⟨false, w', e, fun h => by cases h⟩
  · have hiff : (env.fails w.calls.length = true ∨ mbrPartition env = none ∨ env.fails (w.calls.length + 1) = true ∨
        ∃ i, mbrPartition env = some i ∧ BpbSound env i) ↔ BpbSound env i := by
      simp [hp, hf, hf']
    rw [hiff]
    by_cases h0 : bpbData env (readLe32 (mbrData env) (i * 16 + 8)) 0x02 = 0
    · rw [if_pos h0] at h
      constructor
      · rintro ⟨ok, w', e, _⟩
        rw [h] at e; cases e
      · exact fun hs => absurd h0 hs.2.1
    · rw [if_neg h0] at h
      obtain ⟨cs, e⟩ := h
      rw [← mounted_geometry env w.vol i]
      constructor
      · rintro ⟨ok, w', e', hg⟩
        rw [e] at e'
        cases e'
        exact hg rfl
      · exact fun hg => ⟨true, _, e, fun _ => hg⟩

/-- A card with one FAT32 partition whose boot sector has 0 sectors per cluster. -/
def zeroSpcCard : Env := card [(0, 446, 0x80), (0, 450, 0x0C), (0, 454, 1), (0, 458, 100), (0, 510, 0x55), (0, 511, 0xAA),
  (1, 0x0C, 2)]

theorem mount_divides_by_zero : ¬ MountSafe zeroSpcCard World.boot := by
  have h : (match fat32Init zeroSpcCard World.boot with
      | .error .divZero => true
      | _ => false) = true := by decide +kernel
  rintro ⟨ok, w', e, _⟩
  rw [e] at h
  cases h

end OpenGpos.Fat
