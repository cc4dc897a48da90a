/-
  OpenGpos.Kernel.Segments — the loop of loadELF. While the image is in memory and no segment
  is written over it, every turn reads its header from the file: the loop changes nothing but
  the addresses that the file's headers name (`loadSegments_out`), and for a well-formed file
  it puts the segments in place (`loadSegments_place`). The 16-bit offsets of read_le32 are no
  restriction for a file of at most 32 KiB.
-/
import OpenGpos.Lib.Elf
import OpenGpos.Libc.HeapInv
import OpenGpos.Kernel.Loader

namespace OpenGpos.Kernel

open OpenGpos.Lib OpenGpos.Lib.Bytes OpenGpos.Fat
open OpenGpos.Libc.Heap (u32 u32_of_lt)

/-! ## Headers -/

def ProgramHeader.segment (h : ProgramHeader) : Elf.Segment :=
  ⟨h.pType.toNat, h.pOffset.toNat, h.pVaddr.toNat, h.pFilesz.toNat, h.pMemsz.toNat⟩

theorem ProgramHeader.isLoad_iff (h : ProgramHeader) : h.segment.isLoad = true ↔ h.pType = 1 := by
  show (h.pType.toNat == 1) = true ↔ _
  rw [beq_iff_eq, ← UInt32.toNat_inj]
  rfl

theorem readField_toNat {d : Buf} {offset : UInt32} (h : offset.toNat < 2 ^ 16) :
    (readField d offset).toNat = load32 d offset.toNat := by
  unfold readField
  rw [readLe32_toNat, UInt32.toNat_toUInt16, Nat.mod_eq_of_lt h]

theorem readHeader_segment {d : Buf} {offset : UInt32} (h : offset.toNat + 32 ≤ 2 ^ 16) :
    (readHeader d offset).segment = Elf.segmentAt d offset.toNat := by
  have field : ∀ x : UInt32, x.toNat < 32 → (readField d (offset + x)).toNat = load32 d (offset.toNat + x.toNat) := by
    intro x hx
    have e : (offset + x).toNat = offset.toNat + x.toNat := by
      rw [UInt32.toNat_add]
      exact Nat.mod_eq_of_lt (by omega)
    rw [readField_toNat (by omega), e]
  have h0 : (readField d offset).toNat = load32 d offset.toNat := readField_toNat (by omega)
  have h4 := field 0x04 (by decide)
  have h8 := field 0x08 (by decide)
  have h10 := field 0x10 (by decide)
  have h14 := field 0x14 (by decide)
  unfold readHeader ProgramHeader.segment Elf.segmentAt
  rw [h0, h4, h8, h10, h14]
  rfl

/-- The loop's offset of header `n`. -/
theorem offset_toNat {ePhoff ePhentsize : UInt32} {n : Nat} (hn : n < 2 ^ 16)
    (h : ePhoff.toNat + n * ePhentsize.toNat < 2 ^ 32) :
    (ePhoff + (UInt16.ofNat n).toUInt32 * ePhentsize).toNat = ePhoff.toNat + n * ePhentsize.toNat := by
  have hn' : (UInt16.ofNat n).toUInt32.toNat = n := by
    rw [UInt16.toNat_toUInt32, UInt16.toNat_ofNat']
    exact Nat.mod_eq_of_lt hn
  rw [UInt32.toNat_add, UInt32.toNat_mul, hn', Nat.mod_eq_of_lt (Nat.lt_of_le_of_lt (Nat.le_add_left _ _) h)]
  exact Nat.mod_eq_of_lt h

/-! ## One segment -/

/-- The range of a segment that is loaded ends with the address space. -/
def InSpace (s : Elf.Segment) : Prop := s.isLoad = true → s.vaddr + max s.filesz s.memsz ≤ 2 ^ 32

section
variable {m : Mem} {data a : Nat} {h : ProgramHeader}

/-- Where the zeroes of a segment start. -/
theorem tail_toNat (hsp : InSpace h.segment) (hl : h.segment.isLoad = true) (hlt : h.pFilesz < h.pMemsz) :
    (h.pVaddr + h.pFilesz).toNat = h.pVaddr.toNat + h.pFilesz.toNat ∧
      (h.pMemsz - h.pFilesz).toNat = h.pMemsz.toNat - h.pFilesz.toNat := by
  have hs : h.pVaddr.toNat + max h.pFilesz.toNat h.pMemsz.toNat ≤ 2 ^ 32 := hsp hl
  have hlt' := UInt32.lt_iff_toNat_lt.mp hlt
  constructor
  · rw [UInt32.toNat_add]
    exact Nat.mod_eq_of_lt (by omega)
  · exact UInt32.toNat_sub_of_le _ _ (UInt32.le_iff_toNat_le.mpr (Nat.le_of_lt hlt'))

theorem copySegment_out (hsp : InSpace h.segment) (hl : h.segment.isLoad = true) (ha : ¬h.segment.Writes a) :
    copySegment m data h a = m a := by
  have hno : ¬(h.pVaddr.toNat ≤ a ∧ (a < h.pVaddr.toNat + h.pFilesz.toNat ∨ a < h.pVaddr.toNat + h.pMemsz.toNat)) :=
    fun hc => ha ⟨hl, hc⟩
  unfold copySegment
  by_cases hlt : h.pFilesz < h.pMemsz
  · obtain ⟨e1, e2⟩ := tail_toNat hsp hl hlt
    have hlt' := UInt32.lt_iff_toNat_lt.mp hlt
    rw [if_pos hlt]
    unfold Startup.memset
    rw [e1, e2, fill_out (by omega), copy_out (by omega)]
  · rw [if_neg hlt, copy_out (by omega)]

/-- What the segment puts at `a`, where it is not copied over its own source. -/
theorem copySegment_in (hsp : InSpace h.segment) (hl : h.segment.isLoad = true) (ha : h.segment.Writes a)
    (hsrc : data + h.pOffset.toNat + h.pFilesz.toNat < 2 ^ 32)
    (hap : ∀ b, h.segment.Writes b → ¬(data + h.pOffset.toNat ≤ b ∧ b < data + h.pOffset.toNat + h.pFilesz.toNat)) :
    copySegment m data h a = if a < h.pVaddr.toNat + h.pFilesz.toNat then
      m (data + h.pOffset.toNat + (a - h.pVaddr.toNat)) else 0 := by
  obtain ⟨-, hge, hend⟩ := ha
  have hge' : h.pVaddr.toNat ≤ a := hge
  have hend' : a < h.pVaddr.toNat + h.pFilesz.toNat ∨ a < h.pVaddr.toNat + h.pMemsz.toNat := hend
  have hdisj : ¬(a < h.pVaddr.toNat + h.pFilesz.toNat) ∨ h.pVaddr.toNat + h.pFilesz.toNat ≤ data + h.pOffset.toNat ∨
      data + h.pOffset.toNat + h.pFilesz.toNat ≤ h.pVaddr.toNat := by
    by_contra hc
    -- the larger of the two starts would be in both ranges
    have hw : h.segment.Writes (max h.pVaddr.toNat (data + h.pOffset.toNat)) :=
      ⟨hl, Nat.le_max_left _ _, Or.inl (show _ < h.pVaddr.toNat + h.pFilesz.toNat by omega)⟩
    exact hap _ hw (by omega)
  have hcopy : a < h.pVaddr.toNat + h.pFilesz.toNat →
      copy m h.pVaddr.toNat (u32 (data + h.pOffset.toNat)) h.pFilesz.toNat a =
        m (data + h.pOffset.toNat + (a - h.pVaddr.toNat)) := by
    intro hin
    have e : a = h.pVaddr.toNat + (a - h.pVaddr.toNat) := by omega
    rw [u32_of_lt (by omega)]
    conv_lhs => rw [e]
    exact copy_in (by omega) (by omega)
  unfold copySegment
  by_cases hlt : h.pFilesz < h.pMemsz
  · obtain ⟨e1, e2⟩ := tail_toNat hsp hl hlt
    have hlt' := UInt32.lt_iff_toNat_lt.mp hlt
    rw [if_pos hlt]
    unfold Startup.memset
    rw [e1, e2]
    by_cases hin : a < h.pVaddr.toNat + h.pFilesz.toNat
    · rw [if_pos hin, fill_out (by omega)]
      exact hcopy hin
    · rw [if_neg hin]
      have e : a = h.pVaddr.toNat + h.pFilesz.toNat + (a - (h.pVaddr.toNat + h.pFilesz.toNat)) := by omega
      rw [e]
      exact fill_in (by omega)
  · have hle : h.pMemsz.toNat ≤ h.pFilesz.toNat := UInt32.not_lt.mp hlt
    rw [if_neg hlt, if_pos (by omega)]
    exact hcopy (by omega)

end

/-! ## The loop -/

/-- The first `n` turns of the loop on the image at `data`. -/
def loadProgram (data n : Nat) (k : Machine) : Machine :=
  loadSegments data (readField (k.bytesAt data) 0x1C) (readLe16 (k.bytesAt data) 0x2A).toUInt32 n k

/-- The image of `file` is at `data`. -/
structure Image (k : Machine) (data : Nat) (file : Mem) (size : Nat) : Prop where
  bytes : ∀ i < size, k.heap.mem (data + i) = file i
  small : size ≤ 0x8000
  header : 52 ≤ size
  table : Elf.TableInside file size
  space : ∀ i < Elf.phnum file, InSpace (Elf.segment file i)

/-- No segment is loaded over the image. -/
def Apart (data : Nat) (file : Mem) (size : Nat) : Prop := ∀ a, Elf.Writes file a → ¬(data ≤ a ∧ a < data + size)

section
variable {k : Machine} {data size : Nat} {file : Mem}

theorem loadSegment_skip {o : UInt32} (h : (readHeader (k.bytesAt data) o).segment.isLoad ≠ true) : loadSegment data o k = k := by
  unfold loadSegment
  exact if_pos fun hc => h ((ProgramHeader.isLoad_iff _).mpr hc)

theorem loadSegment_load {o : UInt32} (h : (readHeader (k.bytesAt data) o).segment.isLoad = true) :
    (loadSegment data o k).heap.mem = copySegment k.heap.mem data (readHeader (k.bytesAt data) o) := by
  unfold loadSegment
  simp only [if_neg (not_not.mpr ((ProgramHeader.isLoad_iff _).mp h))]

/-- All that a turn keeps but the memory and the log. -/
theorem loadSegment_rest (o : UInt32) (k : Machine) : (loadSegment data o k).fat = k.fat ∧
    (loadSegment data o k).heap.head = k.heap.head := by
  unfold loadSegment
  dsimp only
  split
  · exact ⟨rfl, rfl⟩
  · exact ⟨rfl, rfl⟩

theorem loadSegments_rest (data : Nat) (ePhoff ePhentsize : UInt32) (n : Nat) (k : Machine) :
    (loadSegments data ePhoff ePhentsize n k).fat = k.fat ∧ (loadSegments data ePhoff ePhentsize n k).heap.head = k.heap.head := by
  induction n with
  | zero => exact ⟨rfl, rfl⟩
  | succ n ih =>
    obtain ⟨h1, h2⟩ := loadSegment_rest (ePhoff + (UInt16.ofNat n).toUInt32 * ePhentsize) (loadSegments data ePhoff ePhentsize n k)
    exact ⟨h1.trans ih.1, h2.trans ih.2⟩

theorem Image.sameOn (hi : Image k data file size) {lo hi' : Nat} (h : hi' ≤ size) : SameOn lo hi' file (k.bytesAt data) :=
  fun i _ hlt => hi.bytes i (by omega)

theorem Image.phoff (hi : Image k data file size) : (readField (k.bytesAt data) 0x1C).toNat = Elf.phoff file := by
  have hh := hi.header
  rw [readField_toNat (by decide)]
  exact load32_congr (hi.sameOn (show 0x1C + 4 ≤ size by omega))

theorem Image.phentsize (hi : Image k data file size) :
    (readLe16 (k.bytesAt data) 0x2A).toUInt32.toNat = Elf.phentsize file := by
  have hh := hi.header
  rw [UInt16.toNat_toUInt32, readLe16_toNat]
  exact load16_congr (hi.sameOn (show 0x2A + 2 ≤ size by omega))

theorem Image.phnum (hi : Image k data file size) : (readLe16 (k.bytesAt data) 0x2C).toNat = Elf.phnum file := by
  have hh := hi.header
  rw [readLe16_toNat]
  exact load16_congr (hi.sameOn (show 0x2C + 2 ≤ size by omega))

theorem Image.entry (hi : Image k data file size) : (readField (k.bytesAt data) 0x18).toNat = Elf.entry file := by
  have hh := hi.header
  rw [readField_toNat (by decide)]
  exact load32_congr (hi.sameOn (show 0x18 + 4 ≤ size by omega))

/-- With the image still in memory, turn `n` reads header `n` of the file. -/
theorem Image.readHeader (hi : Image k data file size) {k' : Machine} (hk : ∀ i < size, k'.heap.mem (data + i) = file i)
    {n : Nat} (hn : n < Elf.phnum file) :
    (readHeader (k'.bytesAt data) (readField (k.bytesAt data) 0x1C +
      (UInt16.ofNat n).toUInt32 * (readLe16 (k.bytesAt data) 0x2A).toUInt32)).segment = Elf.segment file n := by
  have ht := hi.table n hn
  have hs := hi.small
  have hnum : Elf.phnum file < 2 ^ 16 := load16_lt file 0x2C
  unfold Elf.headerOffset at ht
  have ho : (readField (k.bytesAt data) 0x1C + (UInt16.ofNat n).toUInt32 * (readLe16 (k.bytesAt data) 0x2A).toUInt32).toNat =
      Elf.headerOffset file n := by
    rw [offset_toNat (by omega) (by rw [hi.phoff, hi.phentsize]; omega), hi.phoff, hi.phentsize]
    rfl
  rw [readHeader_segment (by rw [ho]; unfold Elf.headerOffset; omega), ho]
  apply Elf.segmentAt_congr
  intro i _ hlt
  exact hk i (by unfold Elf.headerOffset at hlt; omega)

/-- The turns change only what the file's headers name. -/
theorem loadProgram_out (hi : Image k data file size) (hap : Apart data file size) {n : Nat} (hn : n ≤ Elf.phnum file) : ∀ a,
    (∀ i < n, ¬(Elf.segment file i).Writes a) → (loadProgram data n k).heap.mem a = k.heap.mem a := by
  induction n with
  | zero => exact fun a _ => rfl
  | succ n ih =>
    intro a ha
    have hk : ∀ i < size, (loadProgram data n k).heap.mem (data + i) = file i := by
      intro i hlt
      rw [ih (by omega) _ fun j hj hw => hap _ ⟨j, by omega, hw⟩ ⟨by omega, by omega⟩]
      exact hi.bytes i hlt
    have hseg := hi.readHeader hk (Nat.lt_of_succ_le hn)
    have hrest := ih (by omega) a fun i hlt => ha i (by omega)
    show (loadSegment data _ (loadProgram data n k)).heap.mem a = _
    rw [← hrest]
    have hno := ha n (Nat.lt_succ_self n)
    have hsp := hi.space n (Nat.lt_of_succ_le hn)
    rw [← hseg] at hno hsp
    by_cases hl : (readHeader ((loadProgram data n k).bytesAt data) (readField (k.bytesAt data) 0x1C +
        (UInt16.ofNat n).toUInt32 * (readLe16 (k.bytesAt data) 0x2A).toUInt32)).segment.isLoad = true
    · rw [loadSegment_load hl]
      exact copySegment_out hsp hl hno
    · rw [loadSegment_skip hl]

/-- The image outlives the loop. -/
theorem Image.kept (hi : Image k data file size) (hap : Apart data file size) {n : Nat} (hn : n ≤ Elf.phnum file) :
    ∀ i < size, (loadProgram data n k).heap.mem (data + i) = file i := by
  intro i hlt
  rw [loadProgram_out hi hap hn _ fun j hj hw => hap _ ⟨j, by omega, hw⟩ ⟨by omega, by omega⟩]
  exact hi.bytes i hlt

/-- The turns put the segments of a well-formed file in place. -/
theorem loadProgram_place (hi : Image k data file size) (hap : Apart data file size) (hw : Elf.WellFormed file size) (hd : data + size < 2 ^ 32)
    {n : Nat} (hn : n ≤ Elf.phnum file) : (loadProgram data n k).heap.mem = Elf.placeFirst file n k.heap.mem := by
  induction n with
  | zero => rfl
  | succ n ih =>
    have hlt := Nat.lt_of_succ_le hn
    have hk := hi.kept hap (Nat.le_of_succ_le hn)
    have hseg := hi.readHeader hk hlt
    have hsp := hi.space n hlt
    show (loadSegment data _ (loadProgram data n k)).heap.mem = _
    rw [Elf.placeFirst, ← ih (Nat.le_of_succ_le hn)]
    by_cases hl : (Elf.segment file n).isLoad = true
    · funext a
      have hdata := hw.data n hlt hl
      have hfar : ∀ b, (Elf.segment file n).Writes b → ¬(data ≤ b ∧ b < data + size) := fun b hb => hap b ⟨n, hlt, hb⟩
      rw [loadSegment_load (by rw [hseg]; exact hl)]
      generalize readHeader _ _ = h at hseg
      rw [← hseg] at hl hsp hdata hfar ⊢
      have hdata' : h.pOffset.toNat + h.pFilesz.toNat ≤ size := hdata
      by_cases ha : h.segment.Writes a
      · rw [copySegment_in hsp hl ha (by omega) fun b hb hc => hfar b hb ⟨by omega, by omega⟩]
        unfold Elf.Segment.place
        have hge : h.pVaddr.toNat ≤ a := ha.2.1
        by_cases hin : a < h.pVaddr.toNat + h.pFilesz.toNat
        · rw [if_pos hin, if_pos ⟨hl, hge, hin⟩, Nat.add_assoc]
          exact hk _ (by omega)
        · rw [if_neg hin, if_neg fun hc => hin hc.2.2, if_pos ha]
      · rw [copySegment_out hsp hl ha, Elf.Segment.place_out ha]
    · rw [loadSegment_skip (by rw [hseg]; exact hl)]
      funext a
      exact (Elf.Segment.place_out fun hc => hl hc.1).symm

end

end OpenGpos.Kernel
