/-
  OpenGpos.Kernel.Load — a whole call of loadELF. The heap of the kernel has one client,
  loadELF itself: only its last block is ever free (`KernelHeap`), so malloc never cuts a block
  that another follows. `readFile_whole` is the call up to the loop; with the loop and the
  free at the end, a well-formed program that is read completely is in place
  (`loadELF_places`) and the heap is as it was.
-/
import OpenGpos.Fat.Handles
import OpenGpos.Kernel.Segments

namespace OpenGpos.Kernel

open OpenGpos.Lib OpenGpos.Lib.Bytes OpenGpos.Lib.Tiling OpenGpos.Fat
open OpenGpos.Libc.Heap (board Region Inv Edits InHeader CutsLast malloc free initMalloc align4 le_align4 grant)

/-! ## The heap -/

/-- The kernel's heap: well formed, and no block but the last one is free. -/
def KernelHeap (r : Region) (h : Libc.Heap.St) (live : List (Nat × Nat)) : Prop :=
  ∃ pre b, Inv r h live (pre ++ [b]) ∧ ∀ p ∈ pre, p.used = true

/-- An address that belongs to the heap. -/
def InHeap (r : Region) (a : Nat) : Prop := r.heapStart ≤ a ∧ a < r.heapEnd

section
variable {r : Region} {h h' : Libc.Heap.St} {live : List (Nat × Nat)} {bs : List Block}

theorem InHeader.inHeap (hi : Inv r h live bs) {a : Nat} (ha : InHeader bs a) : r.lo ≤ a ∧ a < r.heapEnd := by
  obtain ⟨b, hb, h1, h2⟩ := ha
  have ht := tiles_mem 16 hi.linked.tiles hb
  unfold Block.stop at ht
  omega

theorem Inv.payload_inHeap (hi : Inv r h live bs) {p sz : Nat} (ha : (p, sz) ∈ live) :
    r.lo + 16 ≤ p ∧ p + sz ≤ r.heapEnd := by
  obtain ⟨pre, b, post, rfl, -, e⟩ := hi.block ha
  have ht := tiles_mem 16 hi.linked.tiles (b := b) (by simp)
  unfold Block.stop at ht
  cases e
  omega

theorem kernelHeap_init (h0 : Libc.Heap.St) : ∃ h, initMalloc r h0 = some ((), h) ∧ KernelHeap r h [] := by
  obtain ⟨h, e, hi⟩ := Libc.Heap.init_inv (r := r) h0
  exact ⟨h, e, [], _, hi, fun p hp => by cases hp⟩

/-- Used blocks fit nothing, so the last one is taken. -/
theorem cutsLast_of_used {pre : List Block} {b : Block} (hu : ∀ p ∈ pre, p.used = true) (n : Nat) :
    CutsLast n (pre ++ [b]) := by
  intro pre' c post e _ hc _
  rcases List.eq_nil_or_concat post with rfl | ⟨post', d, rfl⟩
  · rfl
  · rw [List.concat_eq_append, ← List.cons_append, ← List.append_assoc] at e
    obtain ⟨rfl, -⟩ := List.append_inj' e rfl
    have huse := hu c (by simp)
    simp [fits, huse] at hc

/-- `p` is the allocation at the top: at most one free block follows it. -/
def TopBlock (r : Region) (h : Libc.Heap.St) (live : List (Nat × Nat)) (p sz : Nat) : Prop :=
  ∃ pre c post, Inv r h ((p, sz) :: live) (pre ++ c :: post) ∧ (∀ q ∈ pre, q.used = true) ∧
    (post = [] ∨ ∃ d, post = [d] ∧ d.used = false) ∧ c.used = true ∧ p = c.addr + 16 ∧ sz = c.size ∧ ∀ a ∈ live, a.1 ≠ p

theorem TopBlock.inHeap {p sz : Nat} (ht : TopBlock r h live p sz) : r.lo + 16 ≤ p ∧ p + sz ≤ r.heapEnd := by
  obtain ⟨pre, c, post, hi, -, -, -, rfl, rfl, -⟩ := ht
  have hm := tiles_mem 16 hi.linked.tiles (b := c) (by simp)
  unfold Block.stop at hm
  omega

theorem TopBlock.congr {p sz : Nat} (ht : TopBlock r h live p sz) (hm : SameOn r.lo r.heapEnd h.mem h'.mem)
    (hh : h'.head = h.head) : TopBlock r h' live p sz := by
  obtain ⟨pre, c, post, hi, hrest⟩ := ht
  exact ⟨pre, c, post, hi.congr hm hh, hrest⟩

/-- The block may be written. -/
theorem TopBlock.write {p sz : Nat} (ht : TopBlock r h live p sz) {m : Mem}
    (hm : ∀ i, ¬(p ≤ i ∧ i < p + sz) → m i = h.mem i) : TopBlock r { h with mem := m } live p sz := by
  obtain ⟨pre, c, post, hi, hrest⟩ := ht
  exact ⟨pre, c, post, hi.write (a := (p, sz)) (by simp) hm h.reads, hrest⟩

/-- What `malloc` gives the kernel. -/
theorem KernelHeap.malloc (hk : KernelHeap r h live) (size : UInt32) : ∃ p h', malloc size h = some (p, h') ∧
    (∀ a, ¬InHeap r a → h'.mem a = h.mem a) ∧
    (p = 0 ∨ p ≠ 0 ∧ ∃ sz, align4 size.toNat ≤ sz ∧ TopBlock r h' live p sz) := by
  obtain ⟨pre, b, hi, hu⟩ := hk
  obtain ⟨p, h', bs', hbs, e, hi', hed, -, hp⟩ := Libc.Heap.malloc_inv size hi (cutsLast_of_used hu _)
  have hlo := r.lo_le
  refine ⟨p, h', e, fun a ha => hed.mem a ?_, ?_⟩
  · rintro ⟨c, hc, h1, h2⟩
    rcases List.mem_append.mp hc with hc | hc
    · have := InHeader.inHeap hi ⟨c, hc, h1, h2⟩
      exact ha ⟨by omega, this.2⟩
    · have := InHeader.inHeap hi' ⟨c, hc, h1, h2⟩
      exact ha ⟨by omega, this.2⟩
  rcases Nat.eq_zero_or_pos p with hz | hpos
  · exact Or.inl hz
  have hne : p ≠ 0 := Nat.pos_iff_ne_zero.mp hpos
  obtain ⟨sz, hg, hsz, hfresh⟩ := hp hne
  refine Or.inr ⟨hne, sz, hsz, ?_⟩
  rw [hg] at hi'
  -- the block of `p` is none of the blocks that were in use before
  obtain ⟨c, hc, huc, hpc⟩ := Libc.Heap.mem_payload.mp ((hi'.live (p, sz)).mp (by simp))
  have hnew : ∀ q ∈ pre ++ [b], q.used = true → q ≠ c := by
    rintro q hq huq rfl
    exact hfresh _ ((hi.live (p, sz)).mpr (Libc.Heap.mem_payload.mpr ⟨q, hq, huq, hpc⟩)) rfl
  cases hpc
  have hfalse : ∀ q ∈ pre, fits (align4 size.toNat) q = false := fun q hq => by simp [fits, hu q hq]
  by_cases hb : fits (align4 size.toNat) b = true
  · rw [takeFirst_mid 16 hfalse hb] at hbs
    have hpre : c ∉ pre := fun hcp => hnew c (by simp [hcp]) huc rfl
    unfold carve at hbs
    subst hbs
    by_cases hcut : align4 size.toNat + 16 + 4 < b.size
    · rw [if_pos hcut] at hi' hc
      rcases List.mem_append.mp hc with hcp | hcp
      · exact absurd hcp hpre
      rcases List.mem_cons.mp hcp with rfl | hcp
      · exact ⟨pre, _, _, hi', hu, Or.inr ⟨_, rfl, rfl⟩, rfl, rfl, rfl, hfresh⟩
      · rw [List.mem_singleton.mp hcp] at huc
        cases huc
    · rw [if_neg hcut] at hi' hc
      rcases List.mem_append.mp hc with hcp | hcp
      · exact absurd hcp hpre
      rw [List.mem_singleton] at hcp
      subst hcp
      exact ⟨pre, _, [], hi', hu, Or.inl rfl, rfl, rfl, rfl, hfresh⟩
  · rw [takeFirst_none 16 (by
      intro q hq
      rcases List.mem_append.mp hq with hq | hq
      · exact hfalse q hq
      · rw [List.mem_singleton.mp hq]
        simpa using hb)] at hbs
    rw [hbs] at hc
    exact absurd rfl (hnew c hc huc)

theorem joinBack_used {pre : List Block} (hu : ∀ q ∈ pre, q.used = true) (xs : List Block) :
    joinBack 16 pre xs = pre ++ xs := by
  rcases List.eq_nil_or_concat' pre with rfl | ⟨pre', q, rfl⟩
  · rfl
  · rw [joinBack_snoc, if_pos (hu q (by simp)), List.append_assoc, List.singleton_append]

/-- What `free` makes of it. -/
theorem TopBlock.free {p sz : Nat} (ht : TopBlock r h live p sz) : ∃ h', free p h = some ((), h') ∧
    KernelHeap r h' live ∧ ∀ a, ¬InHeap r a → h'.mem a = h.mem a := by
  obtain ⟨pre, c, post, hi, hu, hpost, huc, rfl, rfl, hfresh⟩ := ht
  obtain ⟨h', e, hi', hed⟩ := Libc.Heap.free_block hi huc
  have hlo := r.lo_le
  refine ⟨h', e, ?_, fun a ha => hed.mem a fun hc => ha ?_⟩
  · have hlive : ((c.addr + 16, c.size) :: live).filter (·.1 != c.addr + 16) = live := by
      rw [List.filter_cons_of_neg (by simp)]
      exact List.filter_eq_self.mpr fun a ha => by simpa using hfresh a ha
    rw [hlive, joinBack_used hu] at hi'
    rcases hpost with rfl | ⟨d, rfl, hd⟩
    · exact ⟨pre, _, hi', hu⟩
    · simp only [absorb, hd, Bool.false_eq_true, if_false] at hi'
      exact ⟨pre, _, hi', hu⟩
  · have := InHeader.inHeap hi hc
    exact ⟨by omega, this.2⟩

end

/-! ## The file -/

/-- The bytes of the file behind a handle, on a volume the driver can read. -/
def FileBytes (env : Env) (v : VolumeInfo) (h : FileHandle) (file : Mem) : Prop :=
  v.WellFormed ∧ ∃ cs, Holds env v h.clusterStart h.fileSize.toNat cs ∧ ∀ i < h.fileSize.toNat, file i =
      chainByte env v cs i

/-- The path resolves to a file of `size` bytes, `file`, and all of them are read, to `data`. -/
structure ReadsWhole (env : Env) (fuel : Nat) (path : List UInt8) (k : Machine) (file : Mem) (size : Nat) (data : Nat)
    (k' : Machine) : Prop where
  run : readFile env fuel path k = .ok ((data, true), k')
  resolves : ∃ id w, fat32Open env fuel path 0 k.fat = .ok (id, w) ∧ ∃ hi : id.toNat < 16,
    (w.handles ⟨id.toNat, hi⟩).fileSize.toNat = size ∧ FileBytes env w.vol (w.handles ⟨id.toNat, hi⟩) file

section
variable {env : Env} {fuel : Nat} {path : List UInt8} {k k' : Machine} {data : Nat} {ok : Bool}

theorem ofNat_slot (i : Slot) : (UInt32.ofNat i.val).toNat = i.val := by
  rw [UInt32.toNat_ofNat']
  exact Nat.mod_eq_of_lt (by omega)

/-- The calls that make up a read of a file, in their order. -/
theorem readFile_calls (hr : readFile env fuel path k = .ok ((data, ok), k')) : ∃ id size w h,
    fat32Open env fuel path 0 k.fat = .ok (id, w) ∧ fat32GetSize id w = .ok (size, w) ∧
    malloc size k.heap = some (data, h) ∧ (data = 0 ∧ ok = false ∧ k' = ⟨w, h, k.written⟩ ∨
      data ≠ 0 ∧ fat32ReadTo env id data size ⟨w, h, k.written⟩ = .ok (ok, k')) := by
  unfold readFile at hr
  obtain ⟨id, k1, h1, hr⟩ := bind_inv hr
  obtain ⟨w, ho, rfl⟩ := onFat_inv h1
  obtain ⟨size, k2, h2, hr⟩ := bind_inv hr
  obtain ⟨w2, hs, rfl⟩ := onFat_inv h2
  obtain ⟨p, k3, h3, hr⟩ := bind_inv hr
  obtain ⟨h, hm, rfl⟩ := onHeap_inv h3
  have hw : w2 = w := by
    unfold fat32GetSize at hs
    split at hs
    · cases hs
      rfl
    · cases hs
      rfl
  subst hw
  by_cases hp : p = 0
  · rw [if_pos hp] at hr
    cases hr
    exact ⟨id, size, w2, h, ho, hs, hp ▸ hm, Or.inl ⟨rfl, rfl, rfl⟩⟩
  · rw [if_neg hp] at hr
    obtain ⟨b, k4, hread, hr⟩ := bind_inv hr
    cases hr
    exact ⟨id, size, w2, h, ho, hs, hm, Or.inr ⟨hp, hread⟩⟩

/-- The read call of a file that is read completely. -/
theorem ReadsWhole.delivered {file : Mem} {size : Nat} (hw : ReadsWhole env fuel path k file size data k') :
    ∃ sz : UInt32, sz.toNat = size ∧ size < 2 ^ 31 ∧ ∃ h, malloc sz k.heap = some (data, h) ∧ data ≠ 0 ∧
      k'.heap.head = h.head ∧ k'.fat.vol = k.fat.vol ∧ k'.written = k.written ∧
      (∀ a, ¬(data ≤ a ∧ a < data + size) → k'.heap.mem a = h.mem a) ∧
      ∀ i < size, k'.heap.mem (data + i) = file i := by
  obtain ⟨id, w, ho, hi, hsize, hv, cs, hh, hf⟩ := hw.resolves
  obtain ⟨hvol, hcase⟩ := fat32Open_cases ho
  obtain ⟨id', sz, w1, h, ho', hs, hm, ⟨-, hok, -⟩ | ⟨hne, hto⟩⟩ := readFile_calls hw.run
  · cases hok
  rw [ho] at ho'
  cases ho'
  obtain ⟨buffer, w', hread, rfl⟩ := fat32ReadTo_inv hto
  have hsz : sz = (w.handles ⟨id.toNat, hi⟩).fileSize := by
    unfold fat32GetSize at hs
    rw [dif_pos hi] at hs
    cases hs
    rfl
  subst hsz
  rcases hcase with ⟨rfl, -⟩ | ⟨i, info, -, -, rfl, hhan⟩
  · exact absurd hi (by decide)
  have hslot : (⟨(UInt32.ofNat i.val).toNat, hi⟩ : Slot) = i := Fin.ext (ofNat_slot i)
  have hopened : w.handles ⟨(UInt32.ofNat i.val).toNat, hi⟩ = openHandle info 0 := by
    rw [hslot, hhan]
    exact if_pos rfl
  rw [hopened] at hh hsize hf hm hread
  have hon : OnFile env w.vol (w.handles ⟨(UInt32.ofNat i.val).toNat, hi⟩) cs := by
    rw [hopened]
    exact Holds.opened hh
  have hsmall := hh.small
  obtain ⟨res, n, buf', w'', e, hmv, -, -, hd⟩ := fat32Read_spec hv hi (fun j => h.mem (data + j)) hon
    (by rw [hopened]; rfl) (n := (openHandle info 0).fileSize) hsmall
  have e' := hread.symm.trans e
  simp only [Except.ok.injEq, Prod.mk.injEq] at e'
  obtain ⟨⟨hres, rfl⟩, rfl⟩ := e'
  have hdel := hd (by simpa using hres.symm)
  rw [hopened] at hdel
  have hwant : (openHandle info 0).wanted (openHandle info 0).fileSize = size := by
    unfold FileHandle.wanted
    rw [hsize]
    show Nat.min size (size - 0) = size
    exact Nat.min_self size
  rw [hwant] at hdel
  refine ⟨_, hsize, hsize ▸ hsmall, h, hm, hne, rfl, hmv.vol.trans hvol, rfl, ?_, ?_⟩
  · intro a ha
    by_cases hge : data ≤ a
    · refine (putBytes_from hge).trans ?_
      rw [Option.getD_some, hdel, if_neg (by omega)]
      show h.mem (data + (a - data)) = _
      rw [Nat.add_sub_cancel' hge]
    · exact putBytes_below (Nat.lt_of_not_le hge)
  · intro j hj
    refine (putBytes_from (Nat.le_add_right data j)).trans ?_
    rw [Nat.add_sub_cancel_left, Option.getD_some, hdel, if_pos ⟨Nat.zero_le j, by omega⟩, hf j (by omega)]
    show chainByte env w.vol cs (0 + (j - 0)) = _
    rw [Nat.sub_zero, Nat.zero_add]

theorem invalidExecutable_congr {d file : Mem} {size : Nat} (hs : 52 ≤ size) (h : ∀ i < size, d i = file i) :
    invalidExecutable d = invalidExecutable file := by
  unfold invalidExecutable
  rw [h 0x00 (by omega), h 1 (by omega), h 2 (by omega), h 3 (by omega), h 0x04 (by omega), h 0x05 (by omega),
    h 0x10 (by omega), h 0x12 (by omega)]

/-- What is left of loadELF once the file is in memory. -/
theorem loadELF_read {k1 : Machine} (hr : readFile env fuel path k = .ok ((data, ok), k1)) (hne : data ≠ 0)
    (hacc : invalidExecutable (k1.bytesAt data) = false) : loadELF env fuel path k =
      (onHeap (free data) (loadProgram data (readLe16 (k1.bytesAt data) 0x2C).toNat k1)).bind fun r =>
        .ok (readField (k1.bytesAt data) 0x18, r.2) := by
  unfold loadELF
  rw [bind_apply, hr]
  simp only [ok_bind]
  rw [if_neg hne]
  simp only [bind_apply, get_apply, ok_bind]
  rw [if_neg (by rw [hacc]; decide)]
  rfl

/-- A well-formed program that is read completely, and whose segments meet neither each other
    nor the heap, is in place when loadELF returns its entry point; nothing else has changed. -/
theorem loadELF_places {r : Region} {live : List (Nat × Nat)} {file : Mem} {size : Nat} (hk : KernelHeap r k.heap live)
    (hr : ReadsWhole env fuel path k file size data k') (hacc : invalidExecutable file = false)
    (hwf : Elf.WellFormed file size) (hd : Elf.Disjoint file) (hheap : ∀ a, Elf.Writes file a → ¬InHeap r a) :
    ∃ entry k2, loadELF env fuel path k = .ok (entry, k2) ∧ entry.toNat = Elf.entry file ∧
      Elf.Loaded file (InHeap r) k.heap.mem k2.heap.mem ∧ k2.fat.vol = k.fat.vol ∧ KernelHeap r k2.heap live := by
  obtain ⟨sz, hsz, hsmall, h, hm, hne, hhead, hvol, -, hout, hbytes⟩ := hr.delivered
  have hlo := r.lo_le
  have hend : r.heapEnd < 2 ^ 32 := r.fits
  have hlen : r.heapEnd = r.heapStart + 0x8000 := rfl
  -- the buffer is the top block of the heap
  obtain ⟨p, h', hm', hkeep, hz | ⟨-, bsz, hle, htop⟩⟩ := hk.malloc sz
  · rw [hm] at hm'
    cases hm'
    exact absurd hz hne
  rw [hm] at hm'
  cases hm'
  have hfit : size ≤ bsz := by
    have := le_align4 (n := sz.toNat) (by omega)
    omega
  have hin := htop.inHeap
  have htop1 : TopBlock r k'.heap live data bsz := by
    refine (htop.write (m := k'.heap.mem) fun i hi => hout i fun hc => hi ⟨hc.1, by omega⟩).congr ?_ hhead
    exact SameOn.refl _ _ _
  -- the loop
  have himg : Image k' data file size := by
    refine ⟨hbytes, by omega, hwf.header, hwf.tableInside, ?_⟩
    intro i hi hl
    have h1 := hwf.space i hi hl
    have h2 := hwf.sizes i hi hl
    rw [Nat.max_eq_right h2]
    exact h1
  have hap : Apart data file size := by
    intro a ha hc
    exact hheap a ha ⟨by omega, by omega⟩
  have hloop := loadProgram_place himg hap hwf (by omega) (Nat.le_refl _)
  have hplaced := Elf.placeFirst_loaded hd k'.heap.mem
  rw [← hloop] at hplaced
  have hrest := loadSegments_rest data (readField (k'.bytesAt data) 0x1C) (readLe16 (k'.bytesAt data) 0x2A).toUInt32
    (Elf.phnum file) k'
  have hsame : SameOn r.lo r.heapEnd k'.heap.mem (loadProgram data (Elf.phnum file) k').heap.mem := by
    intro a h1 h2
    apply hplaced.frame a id
    exact fun hw => hheap a hw ⟨by omega, h2⟩
  -- and the free
  obtain ⟨h2, hfree, hk2, hkeep2⟩ := (htop1.congr hsame hrest.2).free
  have hrun := loadELF_read hr.run hne ((invalidExecutable_congr hwf.header hbytes).trans hacc)
  rw [himg.phnum, onHeap_ok hfree] at hrun
  refine ⟨_, _, hrun, himg.entry, ?_, (congrArg World.vol hrest.1).trans hvol, hk2⟩
  refine hplaced.mono ?_ hkeep2 (fun _ hf => hf.elim) hheap
  intro b hb
  rw [hout b fun hc => hb ⟨by omega, by omega⟩]
  exact hkeep b hb

end

/-! ## A small program -/

/-- Entry point 0x20008000, and one program header at 0x34. -/
def elfHeader : List UInt8 :=
  [0x7F, 0x45, 0x4C, 0x46, 1, 1, 1] ++ List.replicate 9 0 ++
  [2, 0, 0x28, 0, 1, 0, 0, 0, 0x00, 0x80, 0x00, 0x20, 0x34, 0, 0, 0] ++ List.replicate 8 0 ++
  [0x34, 0, 0x20, 0, 1, 0] ++ List.replicate 6 0

/-- The program header. -/
def segmentHeader (vaddr : UInt32) : List UInt8 := [
  1, 0, 0, 0, 0x54, 0, 0, 0,
  vaddr.toUInt8, (vaddr >>> 8).toUInt8, (vaddr >>> 16).toUInt8, (vaddr >>> 24).toUInt8, 0, 0, 0, 0,
  4, 0, 0, 0, 8, 0, 0, 0, 7, 0, 0, 0, 0, 0, 0, 0]

/-- An executable of one segment: four bytes at `vaddr` and four zeroes behind them. -/
def smallProgram (vaddr : UInt32) : List UInt8 := elfHeader ++ segmentHeader vaddr ++ [0xDE, 0xAD, 0xBE, 0xEF]

/-- Read as a file. -/
def fileOf (program : List UInt8) : Mem := fun i => program.getD i 0

/-- A card with the program as `/A`, in one cluster. -/
def programCard (program : List UInt8) : Env := card <| [
  (0, 446, 0x80), (0, 450, 0x0C), (0, 454, 1), (0, 458, 100), (0, 510, 0x55), (0, 511, 0xAA),
  (1, 0x0C, 2), (1, 0x0D, 1), (1, 0x0E, 1), (1, 0x10, 1), (1, 36, 1), (1, 44, 2),
  (2, 8, 0xF8), (2, 9, 0xFF), (2, 10, 0xFF), (2, 11, 0x0F), (2, 12, 0xF8), (2, 13, 0xFF), (2, 14, 0xFF), (2, 15, 0x0F),
  (3, 0, 0x41), (3, 1, 0x20), (3, 8, 0x20), (3, 26, 3), (3, 28, UInt8.ofNat program.length)] ++
  program.zipIdx.map fun b => (4, b.2, b.1)

/-- What a run returns. -/
def outcome {α : Type} : Except Stop (α × Machine) → Option α
  | .ok r => some r.1
  | .error _ => none

def final {α : Type} (k : Machine) : Except Stop (α × Machine) → Machine
  | .ok r => r.2
  | .error _ => k

def bootMachine : Machine := ⟨World.boot, ⟨fun _ => 0, 0, []⟩, []⟩

/-- The machine at the call of loadELF. -/
def ready (program : List UInt8) (r : Region) : Machine := final bootMachine
    (prepare (programCard program) r bootMachine)

theorem outcome_some {α : Type} {x : Except Stop (α × Machine)} {a : α} (k : Machine) (h : outcome x = some a) :
    x = .ok (a, final k x) := by
  cases x with
  | error e => cases h
  | ok r =>
    cases h
    rfl

/-- After init_malloc the heap is the kernel's. -/
theorem prepare_kernelHeap {env : Env} {r : Region} {k k' : Machine} (h : prepare env r k = .ok ((), k')) :
    KernelHeap r k'.heap [] ∧ k'.written = k.written := by
  unfold prepare at h
  obtain ⟨_, k1, h1, h⟩ := bind_inv h
  obtain ⟨hp, e, rfl⟩ := onHeap_inv h1
  obtain ⟨_, k2, h2, h⟩ := bind_inv h
  obtain ⟨w, -, rfl⟩ := onFat_inv h2
  cases h
  obtain ⟨hp', e', hk⟩ := kernelHeap_init (r := r) k.heap
  rw [e] at e'
  cases e'
  exact ⟨hk, rfl⟩

/-- A program header at any address, with one byte for each of the other fields. -/
def headerOf (type offset filesz memsz : UInt8) (vaddr : UInt32) : List UInt8 := [
  type, 0, 0, 0, offset, 0, 0, 0,
  vaddr.toUInt8, (vaddr >>> 8).toUInt8, (vaddr >>> 16).toUInt8, (vaddr >>> 24).toUInt8, 0, 0, 0, 0,
  filesz, 0, 0, 0, memsz, 0, 0, 0, 7, 0, 0, 0, 0, 0, 0, 0]

/-- An executable with three program headers: four bytes with four zeroes behind them, a note, and six bytes. -/
def notedProgram : List UInt8 :=
  elfHeader.set 0x2C 3 ++ headerOf 1 148 4 8 0x20009000 ++ headerOf 4 148 10 10 0x20000000 ++ headerOf 1 152 6 6 0x20009010 ++
  [0xDE, 0xAD, 0xBE, 0xEF, 0x10, 0x20, 0x30, 0x40, 0x50, 0x60]

theorem notedProgram_segments : Elf.phnum (fileOf notedProgram) = 3 ∧ Elf.segment
    (fileOf notedProgram) 0 = ⟨1, 148, 0x20009000, 4, 8⟩ ∧
    Elf.segment (fileOf notedProgram) 1 = ⟨4, 148, 0x20000000, 10, 10⟩ ∧
    Elf.segment (fileOf notedProgram) 2 = ⟨1, 152, 0x20009010, 6, 6⟩ := by
  decide +kernel

theorem notedProgram_cases {P : Nat → Prop} (h0 : P 0) (h1 : P 1) (h2 : P 2) :
    ∀ i < Elf.phnum (fileOf notedProgram), P i := by
  rw [notedProgram_segments.1]
  intro i hi
  match i, hi with
  | 0, _ => exact h0
  | 1, _ => exact h1
  | 2, _ => exact h2

/-- The note is not loaded. -/
theorem notedProgram_writes {a : Nat} : ∀ i < Elf.phnum (fileOf notedProgram),
    (Elf.segment (fileOf notedProgram) i).Writes a →
    (i = 0 ∧ 0x20009000 ≤ a ∧ a < 0x20009008) ∨ (i = 2 ∧ 0x20009010 ≤ a ∧ a < 0x20009016) := by
  obtain ⟨-, hs0, hs1, hs2⟩ := notedProgram_segments
  refine notedProgram_cases ?_ ?_ ?_
  · rw [hs0]
    rintro ⟨-, h1, h2⟩
    exact Or.inl ⟨rfl, h1, by simp only at h2; omega⟩
  · rw [hs1]
    rintro ⟨hl, -⟩
    cases hl
  · rw [hs2]
    rintro ⟨-, h1, h2⟩
    exact Or.inr ⟨rfl, h1, by simp only at h2; omega⟩

/-- `/A` is loaded to 0x20009000 and 0x20009010 by a kernel without statics. -/
theorem loadELF_places_noted :
    let k := ready notedProgram board
    ∃ entry k2, loadELF (programCard notedProgram) 9 [0x2F, 0x41] k = .ok (entry, k2) ∧
      entry.toNat = Elf.entry (fileOf notedProgram) ∧ Elf.Loaded (fileOf notedProgram) (InHeap board) k.heap.mem k2.heap.mem ∧
      k2.fat.vol = k.fat.vol ∧ KernelHeap board k2.heap [] ∧
      k2.heap.mem 0x20009003 = 0xEF ∧ k2.heap.mem 0x20009004 = 0 ∧ k2.heap.mem 0x20009015 = 0x60 := by
  let env := programCard notedProgram
  intro k
  obtain ⟨hnum, hs0, hs1, hs2⟩ := notedProgram_segments
  have hprep : outcome (prepare env board bootMachine) = some () := by decide +kernel
  have hk : KernelHeap board k.heap [] := (prepare_kernelHeap (outcome_some bootMachine hprep)).1
  have hread : outcome (readFile env 9 [0x2F, 0x41] k) = some (0x20000010, true) := by decide +kernel
  have hopen : answer (fat32Open env 9 [0x2F, 0x41] 0 k.fat) = some 0 := by decide +kernel
  have hvol : (after (fat32Open env 9 [0x2F, 0x41] 0 k.fat)).vol = sampleVolume := by decide +kernel
  have hhan : (after (fat32Open env 9 [0x2F, 0x41] 0 k.fat)).handles 0 = openHandle ⟨fun _ => 0, 3, 158, 0, false⟩ 0 :=
      by
    decide +kernel
  have hbytes : ∀ i < 158, fileOf notedProgram i = chainByte env sampleVolume [3] i := by decide +kernel
  have hend : fatEntry env sampleVolume 3 = 0x0FFFFFF8 := by decide +kernel
  have hwhole : ReadsWhole env 9 [0x2F, 0x41] k (fileOf notedProgram) 158 0x20000010
      (final bootMachine (readFile env 9 [0x2F, 0x41] k)) := by
    refine ⟨outcome_some bootMachine hread, 0, _, answer_some hopen, by decide, ?_, ?_, [3], ?_, ?_⟩
    · exact congrArg (fun h => h.fileSize.toNat) hhan
    · rw [hvol]
      exact sampleVolume_wellFormed
    · show Holds _ _ ((after (fat32Open env 9 [0x2F, 0x41] 0 k.fat)).handles 0).clusterStart
        ((after (fat32Open env 9 [0x2F, 0x41] 0 k.fat)).handles 0).fileSize.toNat _
      rw [hhan, hvol]
      refine ⟨⟨rfl, ⟨by decide, by decide⟩, ?_⟩, by decide, by decide⟩
      rw [hend]
      exact ⟨by decide, by decide⟩
    · show ∀ i < ((after (fat32Open env 9 [0x2F, 0x41] 0 k.fat)).handles 0).fileSize.toNat, _
      rw [hhan, hvol]
      exact hbytes
  have hwf : Elf.WellFormed (fileOf notedProgram) 158 := by
    refine ⟨by decide, by decide +kernel, by decide +kernel, ?_, ?_, ?_⟩
    all_goals
      refine notedProgram_cases ?_ ?_ ?_
      · rw [hs0]
        decide
      · rw [hs1]
        decide
      · rw [hs2]
        decide
  have hdisj : Elf.Disjoint (fileOf notedProgram) := by
    intro i hi j hj hij a hw hw'
    have h := notedProgram_writes i hi hw
    have h' := notedProgram_writes j hj hw'
    omega
  have hapart : ∀ a, Elf.Writes (fileOf notedProgram) a → ¬InHeap board a := by
    rintro a ⟨i, hi, hw⟩ ⟨h1, h2⟩
    have h := notedProgram_writes i hi hw
    have h2' : a < 0x20000000 + 0x8000 := h2
    omega
  obtain ⟨entry, k2, hrun, hentry, hloaded, hrest⟩ := loadELF_places hk hwhole (by decide +kernel) hwf hdisj hapart
  refine ⟨entry, k2, hrun, hentry, hloaded, hrest.1, hrest.2, ?_, ?_, ?_⟩
  · have h := hloaded.data 0 (by rw [hnum]; decide) (by rw [hs0]; rfl) 3 (by rw [hs0]; decide)
    rw [hs0] at h
    exact h
  · have h := hloaded.zero 0 (by rw [hnum]; decide) (by rw [hs0]; rfl) 4 (by rw [hs0]) (by rw [hs0]; decide)
    rw [hs0] at h
    exact h
  · have h := hloaded.data 2 (by rw [hnum]; decide) (by rw [hs2]; rfl) 5 (by rw [hs2]; decide)
    rw [hs2] at h
    exact h

end OpenGpos.Kernel
