/-
  OpenGpos.Kernel.Overlap — where linker.ld puts the heap of the kernel and link_test.ld the
  programs. The heap starts behind .bss and is 32 KiB long, and the programs are linked to the
  16 KiB at 0x20008000: unless the statics of the kernel take no byte at all, or so many that
  the heap starts behind the programs, the two overlap, and a program that is accepted can be
  loaded over its own file in the heap (`heap_kept_iff`).
-/
import OpenGpos.Kernel.Load

namespace OpenGpos.Kernel

open OpenGpos.Lib OpenGpos.Lib.Bytes OpenGpos.Lib.Tiling OpenGpos.Lib.Runs OpenGpos.Fat
open OpenGpos.Libc.Heap (Region Client Op Step Safe Inv InHeader cutsLast CutsLast align4 grant u32 u32_of_lt)

/-! ## The two linker scripts -/

/-- The kernel in RAM: `statics` is the size of .data and .bss with what lies between them. -/
structure KernelImage where
  statics : Nat
  fits : statics ≤ 0x40000

/-- `__heap_start__ = __bss_end__` -/
def KernelImage.region (i : KernelImage) : Region where
  heapStart := 0x20000000 + i.statics
  nonNull := by omega
  fits := by
    have := i.fits
    omega

/-- APP_SRAM. -/
def InAppSram (a : Nat) : Prop := 0x20008000 ≤ a ∧ a < 0x20008000 + 0x4000

/-- A program that loadELF accepts, linked to APP_SRAM. -/
structure AppProgram (file : Mem) (size : Nat) : Prop where
  header : 52 ≤ size
  accepted : invalidExecutable file = false
  table : Elf.TableInside file size
  sram : ∀ a, Elf.Writes file a → InAppSram a

/-- A byte of a block header or of a live payload. -/
def HeapByte (r : Region) (c : Client) (a : Nat) : Prop :=
  (∃ x ∈ c.live, x.1 ≤ a ∧ a < x.1 + x.2) ∨ ∃ bs, Libc.Heap.WellFormed r c.heap bs ∧ InHeader bs a

/-- The machine with the file read into the block at `data`. -/
def withFile (w : World) (c : Client) (data : Nat) (file : Mem) (size : Nat) : Machine :=
  ⟨w, { c.heap with mem := fun a => if data ≤ a ∧ a < data + size then file (a - data) else c.heap.mem a }, []⟩

/-- Whatever happened on the heap before: when loadELF has got a block for a program of APP_SRAM
    and read it, no turn of its loop changes a byte of a header or of a live payload. -/
def HeapKept (r : Region) : Prop :=
  ∀ (m : Mem) (c0 c1 c : Client) (ops : List Op) (size : UInt32) (data bsize : Nat) (file : Mem) (w : World),
    Libc.Heap.start r m = some c0 → Run (Guard Safe Step) c0 ops c1 → Guard Safe Step c1 (.malloc size) c →
    c.live = (data, bsize) :: c1.live → size.toNat ≤ bsize → AppProgram file size.toNat →
    ∀ n ≤ Elf.phnum file, ∀ a, HeapByte r c a →
      (loadProgram data n (withFile w c data file size.toNat)).heap.mem a = (withFile w c data file size.toNat).heap.mem a

/-! ## Apart -/

section
variable {r : Region} {c : Client} {file : Mem} {size : Nat}

theorem HeapByte.inHeap (hc : c.Ok r) {a : Nat} (ha : HeapByte r c a) : r.lo ≤ a ∧ a < r.heapEnd := by
  obtain ⟨bs, hi⟩ := hc
  rcases ha with ⟨⟨p, sz⟩, hx, h1, h2⟩ | ⟨bs', hw, b, hb, h1, h2⟩
  · obtain ⟨h3, h4⟩ := Inv.payload_inHeap hi hx
    simp only at h1 h2
    omega
  · have ht := tiles_mem 16 hw.linked.tiles hb
    unfold Block.stop at ht
    omega

/-- Segments in APP_SRAM end far below the end of the address space. -/
theorem AppProgram.inSpace (hp : AppProgram file size) : ∀ i < Elf.phnum file, InSpace (Elf.segment file i) := by
  intro i hi hl
  have hva : (Elf.segment file i).vaddr < 2 ^ 32 := load32_lt file _
  rcases Nat.eq_zero_or_pos (max (Elf.segment file i).filesz (Elf.segment file i).memsz) with hz | hpos
  · omega
  · have hlast := hp.sram ((Elf.segment file i).vaddr + max (Elf.segment file i).filesz (Elf.segment file i).memsz - 1)
      ⟨i, hi, hl, by omega, by omega⟩
    have h2 := hlast.2
    omega

theorem image_withFile (hp : AppProgram file size) (hs : size ≤ 0x8000) (w : World) (data : Nat) :
    Image (withFile w c data file size) data file size := by
  refine ⟨fun i hi => ?_, hs, hp.header, hp.table, hp.inSpace⟩
  show (if _ then _ else _) = _
  rw [if_pos ⟨Nat.le_add_right data i, by omega⟩, Nat.add_sub_cancel_left]

/-- A heap that APP_SRAM does not meet is kept. -/
theorem heapKept_of_apart (hap : ∀ a, InAppSram a → ¬(r.lo ≤ a ∧ a < r.heapEnd)) : HeapKept r := by
  intro m c0 c1 c ops size data bsize file w hstart hrun hstep hlive hle hp n hn a ha
  have hok : c.Ok r := Libc.Heap.step_inv (Libc.Heap.run_inv hstart hrun) hstep
  obtain ⟨bs, hi⟩ := id hok
  have hblock : r.lo + 16 ≤ data ∧ data + bsize ≤ r.heapEnd := Inv.payload_inHeap hi (by rw [hlive]; simp)
  have hend : r.heapEnd = r.heapStart + 0x8000 := rfl
  have hlo := r.lo_le
  have hbuf : Apart data file size.toNat := by
    intro b hb hc
    exact hap b (hp.sram b hb) ⟨by omega, by omega⟩
  apply loadProgram_out (image_withFile hp (by omega) w data) hbuf hn
  intro i hlt hw
  exact hap a (hp.sram a ⟨i, by omega, hw⟩) (ha.inHeap hok)

end

/-! ## Overlapping -/

/-- A heap that is one block in use. -/
theorem full_heap (r : Region) : ∃ c0 c, Libc.Heap.start r (fun _ => 0) = some c0 ∧
    Guard Safe Step c0 (.malloc 0x7FEC) c ∧ c.live = (r.lo + 16, r.heapSize - 16) :: c0.live ∧
    0x7FEC ≤ r.heapSize - 16 ∧ ∀ a, r.lo ≤ a → a < r.heapEnd → HeapByte r c a := by
  obtain ⟨hsz, h16, hlt, hpos⟩ := r.size_eq
  have hlo := r.lo_le
  have hend : r.heapEnd = r.heapStart + 0x8000 := rfl
  obtain ⟨h0, e, hi⟩ := Libc.Heap.init_inv (r := r) ⟨fun _ => 0, 0, []⟩
  have ha : align4 (0x7FEC : UInt32).toNat = 0x7FEC := by decide
  have hcut : CutsLast (align4 (0x7FEC : UInt32).toNat) ([] ++ [⟨r.lo, r.heapSize - 16, false⟩]) :=
    cutsLast_of_used (fun _ hp => by cases hp) _
  obtain ⟨p, h', bs', hbs, em, hi', -, -, -⟩ := Libc.Heap.malloc_inv 0x7FEC (hi.setReads []) hcut
  -- the block is taken as it is
  have hfit : fits (align4 (0x7FEC : UInt32).toNat) ⟨r.lo, r.heapSize - 16, false⟩ = true := by
    rw [ha]
    simp only [fits, Bool.not_false, Bool.true_and, decide_eq_true_eq]
    omega
  have hbs' : bs' = [⟨r.lo, r.heapSize - 16, true⟩] := by
    rw [hbs, ha]
    rw [ha] at hfit
    unfold takeFirst
    rw [if_pos hfit]
    unfold carve
    rw [if_neg (by simp only; omega)]
  subst hbs'
  have hlive : grant [] p h' = [(r.lo + 16, r.heapSize - 16)] := by
    have hmem := (hi'.live (r.lo + 16, r.heapSize - 16)).mpr (by simp [inUse, Libc.Heap.payload])
    unfold grant at hmem ⊢
    by_cases hp : p = 0
    · rw [if_pos hp] at hmem
      cases hmem
    · rw [if_neg hp] at hmem ⊢
      rw [List.mem_singleton] at hmem
      rw [hmem]
  refine ⟨⟨h0, []⟩, ⟨h', grant [] p h'⟩, ?_, ⟨?_, rfl, ?_⟩, hlive, by omega, ?_⟩
  · simp [Libc.Heap.start, e]
  · show cutsLast h0 0x7FEC = true
    rcases Libc.Heap.find_spec (align4 (0x7FEC : UInt32).toNat) h0 hi.linked.tiles hi.linked.fwd hi.ne hi.head hpos hlt with
      ⟨hno, -⟩ | ⟨pre, b, post, h1, hl, -, -, ef, -, -⟩
    · rw [hno _ (List.mem_singleton.mpr rfl)] at hfit
      cases hfit
    · have hb : b = ⟨r.lo, r.heapSize - 16, false⟩ := List.mem_singleton.mp (hl ▸ List.mem_append_right pre (List.mem_cons_self ..))
      have hsize : load32 h0.mem (r.lo + 8) = r.heapSize - 16 := hi.linked.fwd.1.2.1
      have hsmall : load32 h0.mem (r.lo + 8) ≤ 0x7FEC + 20 := by omega
      unfold cutsLast
      rw [ef, ha, hb]
      simp [hsmall]
  · simp only [Libc.Heap.call, em, Option.bind_eq_bind, Option.bind_some, Option.pure_def]
  · intro a h1 h2
    by_cases hh : a < r.lo + 16
    · exact Or.inr ⟨_, hi'.wellFormed, _, List.mem_singleton.mpr rfl, h1, hh⟩
    · refine Or.inl ⟨(r.lo + 16, r.heapSize - 16), ?_, Nat.le_of_not_lt hh, ?_⟩
      · rw [hlive]
        exact List.mem_singleton.mpr rfl
      · show a < r.lo + 16 + (r.heapSize - 16)
        omega

section
variable {k : Machine} {data size a : Nat} {file : Mem}

/-- The only segment of a file, loaded. -/
theorem loadProgram_one (hi : Image k data file size) (hn : Elf.phnum file = 1) (hl : (Elf.segment file 0).isLoad = true) :
    ∃ h : ProgramHeader, h.segment = Elf.segment file 0 ∧
      (loadProgram data 1 k).heap.mem = copySegment k.heap.mem data h := by
  have hseg := hi.readHeader hi.bytes (n := 0) (by omega)
  exact ⟨_, hseg, loadSegment_load (hseg ▸ hl)⟩

/-- A segment of one byte that is cleared. -/
theorem loads_zero (hi : Image k data file size) (hn : Elf.phnum file = 1) (hs : Elf.segment file 0 = ⟨1, 0, a, 0, 1⟩) :
    (loadProgram data 1 k).heap.mem a = 0 := by
  obtain ⟨h, hh, e⟩ := loadProgram_one hi hn (by rw [hs]; rfl)
  rw [hs] at hh
  obtain ⟨-, -, hva, hfs, hms⟩ := Elf.Segment.mk.inj hh
  have hlt : h.pFilesz < h.pMemsz := by
    rw [UInt32.lt_iff_toNat_lt]
    omega
  have hv : h.pVaddr + h.pFilesz = h.pVaddr := by
    rw [UInt32.toNat_inj.mp (hfs.trans UInt32.toNat_zero.symm), UInt32.add_zero]
  have hd : (h.pMemsz - h.pFilesz).toNat = 1 := by
    rw [UInt32.toNat_sub_of_le _ _ (UInt32.le_iff_toNat_le.mpr (by omega)), hms, hfs]
  rw [e]
  unfold copySegment Startup.memset
  rw [if_pos hlt, hd, hv, hva]
  exact fill_in (d := a) (i := 0) Nat.one_pos

/-- A segment of one byte: the first one of the file. -/
theorem loads_first (hi : Image k data file size) (hd : data < 2 ^ 32) (hn : Elf.phnum file = 1)
    (hs : Elf.segment file 0 = ⟨1, 0, a, 1, 1⟩) : (loadProgram data 1 k).heap.mem a = file 0 := by
  obtain ⟨h, hh, e⟩ := loadProgram_one hi hn (by rw [hs]; rfl)
  rw [hs] at hh
  obtain ⟨-, hof, hva, hfs, hms⟩ := Elf.Segment.mk.inj hh
  have hnlt : ¬h.pFilesz < h.pMemsz := by
    rw [UInt32.lt_iff_toNat_lt]
    omega
  have hfirst := hi.bytes 0 (by have := hi.header; omega)
  rw [e]
  unfold copySegment
  rw [if_neg hnlt, hva, hof, hfs, Nat.add_zero, u32_of_lt hd, ← hfirst]
  show store8 k.heap.mem (a + 0) (k.heap.mem (data + 0)) a = _
  exact store8_same ..

end

def clashHeader (vaddr : UInt32) (filesz : UInt8) : List UInt8 := [
  1, 0, 0, 0, 0, 0, 0, 0,
  vaddr.toUInt8, (vaddr >>> 8).toUInt8, (vaddr >>> 16).toUInt8, (vaddr >>> 24).toUInt8, 0, 0, 0, 0,
  filesz, 0, 0, 0, 1, 0, 0, 0, 4, 0, 0, 0, 0, 0, 0, 0]

/-- A program of one byte at `vaddr`: its own first byte, or zero. -/
def clashProgram (vaddr : UInt32) (filesz : UInt8) : List UInt8 := elfHeader ++ clashHeader vaddr filesz

/-- What is to be checked of the programs for `vaddr`. -/
def ClashOk (vaddr : UInt32) (filesz : UInt8) : Prop :=
  Elf.phnum (fileOf (clashProgram vaddr filesz)) = 1 ∧
  Elf.segment (fileOf (clashProgram vaddr filesz)) 0 = ⟨1, 0, vaddr.toNat, filesz.toNat, 1⟩ ∧
  Elf.headerOffset (fileOf (clashProgram vaddr filesz)) 0 = 52 ∧
  invalidExecutable (fileOf (clashProgram vaddr filesz)) = false

instance (vaddr : UInt32) (filesz : UInt8) : Decidable (ClashOk vaddr filesz) := by
  unfold ClashOk
  infer_instance

theorem clash_appProgram {vaddr : UInt32} {filesz : UInt8} (hc : ClashOk vaddr filesz) (hs : InAppSram vaddr.toNat)
    (hf : filesz.toNat ≤ 1) : AppProgram (fileOf (clashProgram vaddr filesz)) 0x7FEC := by
  obtain ⟨hn, hseg, hoff, hacc⟩ := hc
  refine ⟨by decide, hacc, ?_, ?_⟩
  · intro i hi
    obtain rfl : i = 0 := by omega
    rw [hoff]
    decide
  · rintro a ⟨i, hi, -, h1, h2⟩
    obtain rfl : i = 0 := by omega
    rw [hseg] at h1 h2
    simp only at h1 h2
    obtain rfl : a = vaddr.toNat := by omega
    exact hs

/-- Where the byte of one program is zero, the other's is not the first byte of the file. -/
theorem clash_bytes {vaddr : UInt32}
    (hb : ∀ j < 84, fileOf (clashProgram vaddr 0) j = 0 → fileOf (clashProgram vaddr 1) j ≠ 0x7F) (j : Nat) :
    fileOf (clashProgram vaddr 0) j = 0 → fileOf (clashProgram vaddr 1) j ≠ 0x7F := by
  rcases Nat.lt_or_ge j 84 with hlt | hge
  · exact hb j hlt
  · intro _
    have hlen : (clashProgram vaddr 1).length ≤ j := hge
    unfold fileOf
    rw [List.getD_eq_getElem?_getD, List.getElem?_eq_none hlen]
    decide

/-- One of the two programs for an address of the heap changes the byte there. -/
theorem not_heapKept {r : Region} (vaddr : UInt32) (h0 : ClashOk vaddr 0) (h1 : ClashOk vaddr 1) (hs : InAppSram vaddr.toNat)
    (hb : ∀ j < 84, fileOf (clashProgram vaddr 0) j = 0 → fileOf (clashProgram vaddr 1) j ≠ 0x7F)
    (hlo : r.lo ≤ vaddr.toNat) (hhi : vaddr.toNat < r.heapEnd) : ¬HeapKept r := by
  intro hkept
  obtain ⟨c0, c, hstart, hstep, hlive, hroom, hbyte⟩ := full_heap r
  obtain ⟨hsz, h16, hend, -⟩ := r.size_eq
  have h32 : (0x7FEC : UInt32).toNat = 0x7FEC := rfl
  have hp0 := clash_appProgram h0 hs (by decide)
  have hp1 := clash_appProgram h1 hs (by decide)
  have k0 := hkept _ c0 c0 c [] 0x7FEC _ _ _ World.boot hstart (.nil c0) hstep hlive (by rw [h32]; exact hroom) hp0 1
    (by rw [h0.1]) _ (hbyte _ hlo hhi)
  have k1 := hkept _ c0 c0 c [] 0x7FEC _ _ _ World.boot hstart (.nil c0) hstep hlive (by rw [h32]; exact hroom) hp1 1
    (by rw [h1.1]) _ (hbyte _ hlo hhi)
  have e0 := loads_zero (image_withFile (c := c) hp0 (by decide) World.boot (r.lo + 16)) h0.1 h0.2.1
  have e1 := loads_first (image_withFile (c := c) hp1 (by decide) World.boot (r.lo + 16)) (by omega) h1.1 h1.2.1
  have b0 := k0.symm.trans e0
  have b1 := k1.symm.trans e1
  have hfirst : fileOf (clashProgram vaddr 1) 0 = 0x7F := rfl
  rw [hfirst] at b1
  simp only [withFile] at b0 b1
  by_cases hin : r.lo + 16 ≤ vaddr.toNat ∧ vaddr.toNat < r.lo + 16 + (0x7FEC : UInt32).toNat
  · rw [if_pos hin] at b0 b1
    exact clash_bytes hb _ b0 b1
  · rw [if_neg hin] at b0 b1
    rw [b0] at b1
    cases b1

/-- Whatever the size of .data and .bss, the heap is kept exactly if they take no byte, or at
    least 0xBFFD (then the heap starts behind the programs). -/
theorem heap_kept_iff (i : KernelImage) : HeapKept i.region ↔ i.statics = 0 ∨ 0xBFFD ≤ i.statics := by
  have hlo := i.region.lo_le
  have hal : i.region.lo % 4 = 0 := by
    show Libc.Heap.u32 _ / 4 * 4 % 4 = 0
    omega
  have hstart : i.region.heapStart = 0x20000000 + i.statics := rfl
  have hend : i.region.heapEnd = 0x20000000 + i.statics + 0x8000 := rfl
  constructor
  · intro hkept
    by_contra hno
    rcases Nat.lt_or_ge i.statics 0x4000 with hlt | hge
    · refine not_heapKept 0x20008000 (by decide +kernel) (by decide +kernel) ⟨by decide, by decide⟩
        (by decide +kernel) ?_ ?_ hkept
      · show i.region.lo ≤ 0x20008000
        omega
      · show 0x20008000 < i.region.heapEnd
        omega
    · refine not_heapKept 0x2000BFFF (by decide +kernel) (by decide +kernel) ⟨by decide, by decide⟩
        (by decide +kernel) ?_ ?_ hkept
      · show i.region.lo ≤ 0x2000BFFF
        omega
      · show 0x2000BFFF < i.region.heapEnd
        omega
  · intro h
    apply heapKept_of_apart
    rintro a ⟨h1, h2⟩ ⟨h3, h4⟩
    omega

/-- A kernel of which .data and .bss take 0x7FF0 bytes. -/
def kernelOf32K : KernelImage := ⟨0x7FF0, by decide⟩

theorem heap_not_kept : ¬HeapKept kernelOf32K.region := by
  refine not_heapKept 0x2000BFFF (by decide +kernel) (by decide +kernel) ⟨by decide, by decide⟩
    (by decide +kernel) (by decide) (by decide)

end OpenGpos.Kernel
