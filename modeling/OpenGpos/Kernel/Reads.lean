/-
  OpenGpos.Kernel.Reads — where loadELF reads its buffer. `loadELFTraced` is loadELF with a trace:
  every access to the buffer goes through one of four functions that note it, and without the
  trace it is loadELF (`loadELF_traced`). Nothing bounds the accesses: they are inside the file,
  and where the table says, exactly if the file itself sees to it (`reads_inside_iff`).
-/
import OpenGpos.Lib.Traced
import OpenGpos.Kernel.Load

namespace OpenGpos.Kernel

open OpenGpos.Lib OpenGpos.Lib.Bytes OpenGpos.Fat
open OpenGpos.Libc.Heap (board Region free free_returns)

/-! ## The trace -/

inductive Read where
  /-- `data[start]` to `data[start + len - 1]` -/
  | bytes (start len : Nat)
  /-- A field of program header `i`, decoded at `offset`. -/
  | field (ePhoff ePhentsize : UInt32) (i f : Nat) (offset : UInt16)
  deriving DecidableEq, Repr

/-- The indices of an access. -/
def Read.Covers : Read → Nat → Prop
  | .bytes start len, i => start ≤ i ∧ i < start + len
  | .field _ _ _ _ offset, i => offset.toNat ≤ i ∧ i < offset.toNat + 4

/-- A field of the table is read where it is. -/
def Read.Untruncated : Read → Prop
  | .bytes _ _ => True
  | .field ePhoff ePhentsize i f offset => offset.toNat = ePhoff.toNat + i * ePhentsize.toNat + f

/-- What the claim of a safe access comes to, in a file of `size` bytes. -/
def Read.Safe (size : Nat) (r : Read) : Prop := (∀ i, r.Covers i → i < size) ∧ r.Untruncated

abbrev TracedM := Traced Read

def byteAt (data : Buf) (i : Nat) : TracedM UInt8 := .access (.bytes i 1) (data i)

def le32At (data : Buf) (offset : UInt32) : TracedM UInt32 := .access (.bytes offset.toUInt16.toNat 4)
    (readField data offset)

def le16At (data : Buf) (offset : Nat) : TracedM UInt16 := .access (.bytes offset 2) (readLe16 data offset)

/-- Where the table is. -/
structure Table where
  ePhoff : UInt32
  ePhentsize : UInt32

def Table.offset (t : Table) (i : Nat) : UInt32 := t.ePhoff + (UInt16.ofNat i).toUInt32 * t.ePhentsize

/-- The field `f` bytes into header `i`. -/
def fieldAt (data : Buf) (t : Table) (i f : Nat) : TracedM UInt32 :=
  .access (.field t.ePhoff t.ePhentsize i f (t.offset i + UInt32.ofNat f).toUInt16)
    (readField data (t.offset i + UInt32.ofNat f))

/-- The source of the memcpy. -/
def memcpyFrom (pOffset pFilesz : UInt32) : TracedM Unit := .access (.bytes pOffset.toNat pFilesz.toNat) ()

/-- The checks of the header. -/
def invalidExecutableTraced (data : Buf) : TracedM Bool := do
  if (← byteAt data 0x00) ≠ 0x7F then return true
  if (← byteAt data 1) ≠ 0x45 then return true
  if (← byteAt data 2) ≠ 0x4C then return true
  if (← byteAt data 3) ≠ 0x46 then return true
  if (← byteAt data 0x04) = 2 then return true
  if (← byteAt data 0x05) = 2 then return true
  if (← byteAt data 0x10) ≠ 0x02 then return true
  if (← byteAt data 0x12) ≠ 0x28 then return true
  return false

/-- One turn of the loop. -/
def loadSegmentTraced (data : Nat) (t : Table) (i : Nat) (k : Machine) : TracedM Machine := do
  let d := k.bytesAt data
  let pType ← fieldAt d t i 0
  if pType ≠ 1 then return k
  let pOffset ← fieldAt d t i 0x04
  let pVaddr ← fieldAt d t i 0x08
  let pFilesz ← fieldAt d t i 0x10
  let pMemsz ← fieldAt d t i 0x14
  memcpyFrom pOffset pFilesz
  return { k with
    heap := { k.heap with mem := copySegment k.heap.mem data ⟨pType, pOffset, pVaddr, pFilesz, pMemsz⟩ }
    written := (pVaddr.toNat, max pFilesz.toNat pMemsz.toNat) :: k.written }

/-- From the checks to the end of the loop: none for a header that is refused. -/
def loadImage (data : Nat) (k : Machine) : TracedM (Option (UInt32 × Machine)) := do
  let d := k.bytesAt data
  if (← invalidExecutableTraced d) then return none
  let eEntry ← le32At d 0x18
  let ePhoff ← le32At d 0x1C
  let ePhentsize ← le16At d 0x2A
  let ePhnum ← le16At d 0x2C
  let k' ← Traced.turns (loadSegmentTraced data ⟨ePhoff, ePhentsize.toUInt32⟩) ePhnum.toNat k
  return some (eEntry, k')

/-- loadELF, and how it read the buffer. -/
def loadELFTraced (env : Env) (fuel : Nat) (path : List UInt8) : KernelM (UInt32 × List Read) := do
  let (data, _) ← readFile env fuel path
  if data = 0 then return (2, [])
  else
    let image := loadImage data (← get)
    match image.value with
    | none => return (elfInvalidExecutable, image.reads)
    | some (eEntry, k) =>
      set k
      onHeap (free data)
      return (eEntry, image.reads)

/-! ## Without the trace -/

section
variable {d : Buf} {data i : Nat} {t : Table} {k : Machine}

@[simp] theorem value_byteAt : (byteAt d i).value = d i := rfl

@[simp] theorem value_fieldAt (f : Nat) : (fieldAt d t i f).value = readField d (t.offset i + UInt32.ofNat f) := rfl

theorem value_invalidExecutable (d : Buf) : (invalidExecutableTraced d).value = invalidExecutable d := by
  unfold invalidExecutableTraced invalidExecutable
  simp only [Traced.value_bind, Traced.value_ite, Traced.value_pure]
  simp only [value_byteAt]
  grind

theorem value_loadSegment : (loadSegmentTraced data t i k).value = loadSegment data (t.offset i) k := by
  have h0 : readField (k.bytesAt data) (t.offset i + UInt32.ofNat 0) = readField (k.bytesAt data) (t.offset i) := by
    rw [show UInt32.ofNat 0 = 0 from rfl, UInt32.add_zero]
  unfold loadSegmentTraced loadSegment
  simp only [Traced.value_bind, Traced.value_ite, Traced.value_pure, value_fieldAt, h0]
  rfl

theorem value_loop (n : Nat) : (Traced.turns (loadSegmentTraced data t) n k).value =
    loadSegments data t.ePhoff t.ePhentsize n k :=
  Traced.value_turns (s := fun n => loadSegments data t.ePhoff t.ePhentsize n k) (fun _ => value_loadSegment) n

theorem value_loadImage : (loadImage data k).value =
    if invalidExecutable (k.bytesAt data) then none
    else some (readField (k.bytesAt data) 0x18, loadProgram data (readLe16 (k.bytesAt data) 0x2C).toNat k) := by
  unfold loadImage
  simp only [Traced.value_bind, Traced.value_ite, Traced.value_pure, value_invalidExecutable]
  rw [value_loop]
  rfl

end

/-- The trace changes nothing. -/
theorem loadELF_traced (env : Env) (fuel : Nat) (path : List UInt8) :
    (loadELFTraced env fuel path >>= fun r => pure r.1) = loadELF env fuel path := by
  funext k
  unfold loadELFTraced loadELF
  simp only [bind_apply]
  cases hr : readFile env fuel path k with
  | error e => rfl
  | ok r =>
    obtain ⟨⟨data, ok⟩, k1⟩ := r
    simp only [ok_bind]
    by_cases hz : data = 0
    · simp only [hz, if_true]
      rfl
    · simp only [if_neg hz, bind_apply, get_apply, ok_bind, value_loadImage]
      cases hacc : invalidExecutable (k1.bytesAt data) with
      | true => rfl
      | false =>
        simp only [Bool.false_eq_true, if_false, bind_apply]
        rw [show (set (loadProgram data (readLe16 (k1.bytesAt data) 0x2C).toNat k1) : KernelM PUnit) k1 =
          .ok ((), loadProgram data (readLe16 (k1.bytesAt data) 0x2C).toNat k1) from rfl, modify_apply]
        simp only [ok_bind]
        show Except.bind (Except.bind (onHeap (free data) (loadProgram data (readLe16 (k1.bytesAt data) 0x2C).toNat k1)) _) _ =
          Except.bind (onHeap (free data) (loadProgram data (readLe16 (k1.bytesAt data) 0x2C).toNat k1)) _
        cases onHeap (free data) (loadProgram data (readLe16 (k1.bytesAt data) 0x2C).toNat k1) with
        | error e => rfl
        | ok r => rfl

/-! ## Reads inside the file -/

/-- How many bytes of the file the checks, and behind them the header's fields, get to. -/
def headerReach (d : Buf) : Nat :=
  if d 0x00 ≠ 0x7F then 0x01
  else if d 1 ≠ 0x45 then 0x02
  else if d 2 ≠ 0x4C then 0x03
  else if d 3 ≠ 0x46 then 0x04
  else if d 0x04 = 2 then 0x05
  else if d 0x05 = 2 then 0x06
  else if d 0x10 ≠ 0x02 then 0x11
  else if d 0x12 ≠ 0x28 then 0x13
  else 0x2E

/-- The header at `o` is inside a file of `size` bytes, as far as it is read, and where 16 bits
    can name it; so is what a PT_LOAD header takes from the file. -/
structure HeaderFits (size : Nat) (d : Buf) (o : Nat) : Prop where
  type : o < 2 ^ 16 ∧ o + 4 ≤ size
  load : (Elf.segmentAt d o).isLoad = true → o + 0x14 < 2 ^ 16 ∧ o + 0x18 ≤ size ∧
    ((Elf.segmentAt d o).filesz = 0 ∨ (Elf.segmentAt d o).offset + (Elf.segmentAt d o).filesz ≤ size)

section
variable {d : Buf} {data i size : Nat} {t : Table} {k : Machine}

theorem covers_lt {start len : Nat} : (∀ i, start ≤ i ∧ i < start + len → i < size) ↔ len = 0 ∨ start + len ≤ size := by
  constructor
  · intro h
    by_contra hc
    have := h (max start size) ⟨by omega, by omega⟩
    omega
  · intro h i hi
    omega

theorem safe_bytes {start len : Nat} : (Read.bytes start len).Safe size ↔ len = 0 ∨ start + len ≤ size :=
  (and_iff_left trivial).trans covers_lt

theorem safe_field {ePhoff ePhentsize : UInt32} {f : Nat} {offset : UInt16} :
    (Read.field ePhoff ePhentsize i f offset).Safe size ↔
    offset.toNat + 4 ≤ size ∧ offset.toNat = ePhoff.toNat + i * ePhentsize.toNat + f :=
  and_congr_left' (covers_lt.trans (or_iff_right (by decide)))

theorem byteAt_safe : (byteAt d i).AllReads (Read.Safe size) ↔ i + 1 ≤ size :=
  (Traced.allReads_access _ _).trans (safe_bytes.trans (or_iff_right (by decide)))

theorem le32At_safe {offset : UInt32} : (le32At d offset).AllReads
    (Read.Safe size) ↔ offset.toUInt16.toNat + 4 ≤ size :=
  (Traced.allReads_access _ _).trans (safe_bytes.trans (or_iff_right (by decide)))

theorem le16At_safe : (le16At d i).AllReads (Read.Safe size) ↔ i + 2 ≤ size :=
  (Traced.allReads_access _ _).trans (safe_bytes.trans (or_iff_right (by decide)))

theorem memcpyFrom_safe {pOffset pFilesz : UInt32} : (memcpyFrom pOffset pFilesz).AllReads (Read.Safe size) ↔
    pFilesz.toNat = 0 ∨ pOffset.toNat + pFilesz.toNat ≤ size :=
  (Traced.allReads_access _ _).trans safe_bytes

/-- Where header `i` is in the file. -/
def Table.place (t : Table) (i : Nat) : Nat := t.ePhoff.toNat + i * t.ePhentsize.toNat

/-- The offset of a field in 32 bits, cut to 16. -/
theorem Table.offset_toNat (hi : i < 2 ^ 16) (f : Nat) :
    (t.offset i + UInt32.ofNat f).toUInt16.toNat = (t.place i + f) % 2 ^ 16 := by
  have hi' : (UInt16.ofNat i).toUInt32.toNat = i := by
    rw [UInt16.toNat_toUInt32, UInt16.toNat_ofNat']
    exact Nat.mod_eq_of_lt hi
  unfold Table.offset Table.place
  rw [UInt32.toNat_toUInt16, UInt32.toNat_add, UInt32.toNat_add, UInt32.toNat_mul, hi', UInt32.toNat_ofNat']
  generalize i * t.ePhentsize.toNat = x
  omega

theorem fieldAt_safe (hi : i < 2 ^ 16) (f : Nat) : (fieldAt d t i f).AllReads (Read.Safe size) ↔
    t.place i + f < 2 ^ 16 ∧ t.place i + f + 4 ≤ size := by
  have hfit : (t.place i + f) % 2 ^ 16 + 4 ≤ size ∧ (t.place i + f) % 2 ^ 16 = t.place i + f ↔
      t.place i + f < 2 ^ 16 ∧ t.place i + f + 4 ≤ size := by
    omega
  rw [← Table.offset_toNat hi] at hfit
  exact (Traced.allReads_access _ _).trans (safe_field.trans hfit)

theorem value_field (hi : i < 2 ^ 16) {f : Nat} (h : t.place i + f < 2 ^ 16) :
    (readField d (t.offset i + UInt32.ofNat f)).toNat = load32 d (t.place i + f) := by
  unfold readField
  rw [readLe32_toNat, Table.offset_toNat hi, Nat.mod_eq_of_lt h]

/-- One turn. -/
theorem loadSegment_safe (hi : i < 2 ^ 16) : (loadSegmentTraced data t i k).AllReads (Read.Safe size) ↔
    HeaderFits size (k.bytesAt data) (t.place i) := by
  generalize hd : k.bytesAt data = d
  have htype : t.place i < 2 ^ 16 →
      (readField d (t.offset i + UInt32.ofNat 0) = 1 ↔ (Elf.segmentAt d (t.place i)).isLoad = true) := by
    intro h
    rw [← UInt32.toNat_inj, value_field hi (f := 0) h]
    exact beq_iff_eq.symm
  have hsource : t.place i + 0x14 < 2 ^ 16 →
      (readField d (t.offset i + UInt32.ofNat 0x04)).toNat = (Elf.segmentAt d (t.place i)).offset ∧
      (readField d (t.offset i + UInt32.ofNat 0x10)).toNat = (Elf.segmentAt d (t.place i)).filesz :=
    fun h => ⟨value_field hi (by omega), value_field hi (by omega)⟩
  unfold loadSegmentTraced
  simp only [Traced.allReads_bind, Traced.allReads_ite, Traced.allReads_pure, fieldAt_safe hi, memcpyFrom_safe]
  simp only [hd, value_fieldAt]
  constructor
  · rintro ⟨h0, h⟩
    refine ⟨by omega, fun hl => ?_⟩
    rw [if_neg (not_not.mpr ((htype (by omega)).mpr hl))] at h
    obtain ⟨h4, h8, h10, h14, hm, -⟩ := h
    obtain ⟨e1, e2⟩ := hsource (by omega)
    rw [e1, e2] at hm
    exact ⟨by omega, by omega, hm⟩
  · rintro ⟨h0, h⟩
    refine ⟨by omega, ?_⟩
    split
    · trivial
    · next hl =>
      obtain ⟨h14, h18, hm⟩ := h ((htype h0.1).mp (not_not.mp hl))
      obtain ⟨e1, e2⟩ := hsource h14
      rw [e1, e2]
      exact ⟨by omega, by omega, by omega, by omega, hm, trivial⟩

theorem invalidExecutable_safe : (invalidExecutableTraced d).AllReads (Read.Safe size) ↔
    (if invalidExecutable d then headerReach d ≤ size else 0x13 ≤ size) := by
  unfold invalidExecutableTraced invalidExecutable headerReach
  simp only [Traced.allReads_bind, Traced.allReads_ite, Traced.allReads_pure, byteAt_safe]
  simp only [value_byteAt]
  grind

theorem headerReach_accepted (h : invalidExecutable d = false) : headerReach d = 0x2E := by
  unfold invalidExecutable at h
  unfold headerReach
  grind

/-- The table of an image is where its header says. -/
theorem place_headerOffset (d : Buf) (i : Nat) :
    (Table.mk (readField d 0x1C) (readLe16 d 0x2A).toUInt32).place i = Elf.headerOffset d i := by
  unfold Table.place Elf.headerOffset Elf.phoff Elf.phentsize
  rw [readField_toNat (by decide), UInt16.toNat_toUInt32, readLe16_toNat]
  rfl

/-- The whole use of the buffer. -/
theorem loadImage_safe : (loadImage data k).AllReads (Read.Safe size) ↔ headerReach (k.bytesAt data) ≤ size ∧
    (invalidExecutable (k.bytesAt data) = false → ∀ i < Elf.phnum (k.bytesAt data),
      HeaderFits size ((loadProgram data i k).bytesAt data) (Elf.headerOffset (k.bytesAt data) i)) := by
  unfold loadImage
  simp only [Traced.allReads_bind, Traced.allReads_ite, Traced.allReads_pure, invalidExecutable_safe, le32At_safe,
      le16At_safe,
    value_invalidExecutable, Traced.allReads_turns]
  cases hacc : invalidExecutable (k.bytesAt data) with
  | true =>
    simp only [if_true, and_true]
    exact (and_iff_left fun h => absurd h (by decide)).symm
  | false =>
    have hnum : (readLe16 (k.bytesAt data) 0x2C).toNat = Elf.phnum (k.bytesAt data) := readLe16_toNat ..
    have hturn : ∀ i < Elf.phnum (k.bytesAt data), ((loadSegmentTraced data ⟨readField (k.bytesAt data) 0x1C,
        (readLe16 (k.bytesAt data) 0x2A).toUInt32⟩ i (loadProgram data i k)).AllReads (Read.Safe size) ↔
        HeaderFits size ((loadProgram data i k).bytesAt data) (Elf.headerOffset (k.bytesAt data) i)) := by
      intro i hi
      have hlt := load16_lt (k.bytesAt data) 0x2C
      rw [← place_headerOffset]
      exact loadSegment_safe (Nat.lt_trans hi hlt)
    rw [headerReach_accepted hacc]
    simp only [Bool.false_eq_true, if_false, value_loop, forall_const]
    constructor
    · rintro ⟨-, -, -, -, h, hloop, -⟩
      exact ⟨h, fun i hi => (hturn i hi).mp (hloop i (hnum ▸ hi))⟩
    · rintro ⟨h, hloop⟩
      refine ⟨by omega, ?_, ?_, by omega, h, fun i hi => (hturn i (hnum ▸ hi)).mpr (hloop i (hnum ▸ hi)), trivial⟩
      · exact Nat.le_trans (by decide) h
      · exact Nat.le_trans (by decide) h

end

/-! ## A file nothing is loaded over -/

/-- What the file of a call, as it is in the buffer, has to be for that: the header is there as
    far as it is looked at, and at every turn the header in turn, as it is in the buffer then. -/
def Fits (size data : Nat) (k : Machine) : Prop :=
  headerReach (k.bytesAt data) ≤ size ∧ (invalidExecutable (k.bytesAt data) = false →
    ∀ i < Elf.phnum (k.bytesAt data), HeaderFits size ((loadProgram data i k).bytesAt data) (Elf.headerOffset (k.bytesAt data) i))

/-- The same of the file alone. -/
def FileFits (size : Nat) (file : Buf) : Prop :=
  headerReach file ≤ size ∧ (invalidExecutable file = false → ∀ i < Elf.phnum file,
      HeaderFits size file (Elf.headerOffset file i))

section
variable {d : Buf} {data i o size : Nat} {t : Table} {k : Machine}

theorem HeaderFits.isLoad_congr {d' : Buf} (h : HeaderFits size d o) (hs : ∀ j < size, d' j = d j) :
    (Elf.segmentAt d' o).isLoad = (Elf.segmentAt d o).isLoad := by
  have hload : load32 d' o = load32 d o := load32_congr fun j _ hj => hs j (by have := h.type; omega)
  exact congrArg (· == 1) hload

/-- What is read of a header that fits is in the file. -/
theorem HeaderFits.segment_congr {d' : Buf} (h : HeaderFits size d o) (hs : ∀ j < size, d' j = d j)
    (hl : (Elf.segmentAt d o).isLoad = true) : Elf.segmentAt d' o = Elf.segmentAt d o := by
  have hin := (h.load hl).2.1
  have field : ∀ f, f ≤ 0x14 → load32 d' (o + f) = load32 d (o + f) :=
    fun f hf => load32_congr fun j _ hj => hs j (by omega)
  unfold Elf.segmentAt
  rw [field 0x04 (by decide), field 0x08 (by decide), field 0x10 (by decide), field 0x14 (by decide)]
  congr 1
  exact field 0 (by decide)

theorem HeaderFits.congr {d' : Buf} (h : HeaderFits size d o) (hs : ∀ j < size, d' j = d j) : HeaderFits size d' o := by
  refine ⟨h.type, fun hl => ?_⟩
  rw [h.isLoad_congr hs] at hl
  rw [h.segment_congr hs hl]
  exact h.load hl

/-- A turn on a header that fits writes nothing but what the header names. -/
theorem HeaderFits.turn (h : HeaderFits size (k.bytesAt data) (t.place i)) (hi : i < 2 ^ 16)
    (hsp : InSpace (Elf.segmentAt (k.bytesAt data) (t.place i))) {a : Nat} (ha : ¬(Elf.segmentAt (k.bytesAt data) (t.place i)).Writes a) :
    (loadSegment data (t.offset i) k).heap.mem a = k.heap.mem a := by
  have h0 : (readField (k.bytesAt data) (t.offset i)).toNat = load32 (k.bytesAt data) (t.place i) := by
    have e := value_field (d := k.bytesAt data) hi (f := 0) h.type.1
    rwa [show UInt32.ofNat 0 = 0 from rfl, UInt32.add_zero] at e
  by_cases hl : (readHeader (k.bytesAt data) (t.offset i)).segment.isLoad = true
  · have hl' : (Elf.segmentAt (k.bytesAt data) (t.place i)).isLoad = true := by
      unfold readHeader ProgramHeader.segment Elf.Segment.isLoad at hl
      unfold Elf.segmentAt Elf.Segment.isLoad
      rwa [h0] at hl
    have h14 := (h.load hl').1
    have hseg : (readHeader (k.bytesAt data) (t.offset i)).segment = Elf.segmentAt (k.bytesAt data) (t.place i) := by
      have field : ∀ f, f ≤ 0x14 → (readField (k.bytesAt data) (t.offset i + UInt32.ofNat f)).toNat =
          load32 (k.bytesAt data) (t.place i + f) := fun f hf => value_field hi (by omega)
      unfold readHeader ProgramHeader.segment Elf.segmentAt
      rw [← field 0x04 (by decide), ← field 0x08 (by decide), ← field 0x10 (by decide), ← field 0x14 (by decide), ← h0]
      rfl
    rw [loadSegment_load hl]
    exact copySegment_out (hseg ▸ hsp) hl (hseg ▸ ha)
  · rw [loadSegment_skip hl]

/-- The first turns leave a file alone that none of its segments is loaded over. -/
theorem loadProgram_keeps {n : Nat} (hn : n ≤ Elf.phnum (k.bytesAt data)) (hap : Apart data (k.bytesAt data) size)
    (hsp : ∀ i < Elf.phnum (k.bytesAt data), InSpace (Elf.segment (k.bytesAt data) i))
    (hf : ∀ i < n, HeaderFits size (k.bytesAt data) (Elf.headerOffset (k.bytesAt data) i)) :
    ∀ j < size, (loadProgram data n k).bytesAt data j = k.bytesAt data j := by
  induction n with
  | zero => exact fun j _ => rfl
  | succ n ih =>
    have ih := ih (by omega) fun i hi => hf i (by omega)
    have hlt : Elf.phnum (k.bytesAt data) < 2 ^ 16 := load16_lt (k.bytesAt data) 0x2C
    have hfit := hf n (by omega)
    have hnow := hfit.congr ih
    rw [← place_headerOffset] at hnow
    intro j hj
    refine Eq.trans (hnow.turn (by omega) ?_ ?_) (ih j hj)
    · rw [place_headerOffset]
      intro hl
      rw [hfit.isLoad_congr ih] at hl
      rw [hfit.segment_congr ih hl]
      exact hsp n (by omega) hl
    · rw [place_headerOffset]
      intro hw
      have hl := hw.1
      rw [hfit.isLoad_congr ih] at hl
      rw [hfit.segment_congr ih hl] at hw
      exact hap _ ⟨n, by omega, hw⟩ ⟨by omega, by omega⟩

/-- Where no segment is loaded over the buffer, the file decides. -/
theorem fits_iff_file (hap : Apart data (k.bytesAt data) size)
    (hsp : ∀ i < Elf.phnum (k.bytesAt data), InSpace (Elf.segment (k.bytesAt data) i)) :
    Fits size data k ↔ FileFits size (k.bytesAt data) := by
  refine and_congr_right fun _ => imp_congr_right fun _ => ⟨fun h i => ?_, fun h i hi => ?_⟩
  · induction i using Nat.strong_induction_on with
    | h i ih =>
      intro hi
      have hkeep := loadProgram_keeps (Nat.le_of_lt hi) hap hsp fun j hj => ih j hj (by omega)
      exact (h i hi).congr fun j hj => (hkeep j hj).symm
  · exact (h i hi).congr (loadProgram_keeps (Nat.le_of_lt hi) hap hsp fun j hj => h j (by omega))

end

/-! ## Calls -/

/-- The size loadELF takes for the file of `path`. -/
def FileSize (env : Env) (fuel : Nat) (path : List UInt8) (k : Machine) (size : UInt32) : Prop :=
  ∃ id w, fat32Open env fuel path 0 k.fat = .ok (id, w) ∧ fat32GetSize id w = .ok (size, w)

/-- A call of loadELF reads its buffer inside the file, and the table where it is. -/
def ReadsInside (env : Env) (fuel : Nat) (path : List UInt8) (k : Machine) : Prop :=
  ∀ size entry reads k', FileSize env fuel path k size → loadELFTraced env fuel path k = .ok ((entry, reads), k') →
    ∀ r ∈ reads, r.Safe size.toNat

section
variable {env : Env} {fuel : Nat} {path : List UInt8} {k k1 : Machine} {data : Nat} {ok : Bool}

/-- What a call with a buffer reads. -/
theorem loadELFTraced_read (hr : readFile env fuel path k = .ok ((data, ok), k1)) (hne : data ≠ 0) :
    ∃ entry k', loadELFTraced env fuel path k = .ok ((entry, (loadImage data k1).reads), k') := by
  unfold loadELFTraced
  simp only [bind_apply, hr, ok_bind, if_neg hne, get_apply]
  cases hv : (loadImage data k1).value with
  | none => exact ⟨_, _, rfl⟩
  | some v =>
    obtain ⟨h, e⟩ := free_returns data v.2.heap
    refine ⟨v.1, { v.2 with heap := h }, ?_⟩
    simp only [bind_apply]
    rw [show (set v.2 : KernelM PUnit) k1 = .ok ((), v.2) from rfl]
    simp only [ok_bind]
    rw [onHeap_ok e]
    rfl

theorem loadELFTraced_null (hr : readFile env fuel path k = .ok ((0, ok), k1)) :
    loadELFTraced env fuel path k = .ok ((2, []), k1) := by
  unfold loadELFTraced
  simp only [bind_apply, hr, ok_bind, if_true]
  rfl

theorem loadELFTraced_inv {x : UInt32 × List Read} {k' : Machine} (h : loadELFTraced env fuel path k = .ok (x, k')) :
    ∃ data ok k1, readFile env fuel path k = .ok ((data, ok), k1) := by
  unfold loadELFTraced at h
  obtain ⟨r, k1, hr, -⟩ := bind_inv h
  exact ⟨r.1, r.2, k1, hr⟩

end

/-- For every file and every size: loadELF reads inside the file, and every header field at its
    untruncated offset, exactly if the file has no header, segment or table that leads out of it.
    Segments are taken to lie apart from the kernel's stack and statics. -/
theorem reads_inside_iff (env : Env) (fuel : Nat) (path : List UInt8) (k : Machine) : ReadsInside env fuel path k ↔
    ∀ size data ok k1, FileSize env fuel path k size → readFile env fuel path k = .ok ((data, ok), k1) → data ≠ 0 →
      Fits size.toNat data k1 := by
  constructor
  · intro h size data ok k1 hs hr hne
    obtain ⟨entry, k', e⟩ := loadELFTraced_read hr hne
    exact loadImage_safe.mp (h size _ _ _ hs e)
  · intro h size entry reads k' hs e
    obtain ⟨data, ok, k1, hr⟩ := loadELFTraced_inv e
    by_cases hz : data = 0
    · subst hz
      rw [loadELFTraced_null hr] at e
      cases e
      exact fun r hr => absurd hr List.not_mem_nil
    · obtain ⟨entry', k2, e'⟩ := loadELFTraced_read hr hz
      rw [e'] at e
      cases e
      exact loadImage_safe.mpr (h size data ok k1 hs hr hz)

/-- `/A` takes 64 bytes from offset 84 of its 88: what follows in the heap becomes part of the program. -/
def greedyProgram : List UInt8 := (smallProgram 0x20009000).set 0x44 64

/-- Its table is at 0x10034, and read at 0x34. -/
def farProgram : List UInt8 := (smallProgram 0x20009000).set 0x1E 1

theorem reads_outside : ¬ReadsInside (programCard greedyProgram) 9 [0x2F, 0x41] (ready greedyProgram board) ∧
    ¬ReadsInside (programCard farProgram) 9 [0x2F, 0x41] (ready farProgram board) := by
  have hopen : ∀ program ∈ [greedyProgram, farProgram],
      answer (fat32Open (programCard program) 9 [0x2F, 0x41] 0 (ready program board).fat) = some 0 ∧
      ((after (fat32Open (programCard program) 9 [0x2F, 0x41] 0 (ready program board).fat)).handles 0).fileSize = 88 :=
      by
    decide +kernel
  have hsize : ∀ program ∈ [greedyProgram, farProgram],
      FileSize (programCard program) 9 [0x2F, 0x41] (ready program board) 88 := by
    intro program hp
    obtain ⟨h1, h2⟩ := hopen program hp
    refine ⟨0, _, answer_some h1, ?_⟩
    unfold fat32GetSize
    rw [dif_pos (by decide)]
    exact congrArg (fun n => Except.ok (n, _)) h2
  have hgreedy : ((outcome (loadELFTraced (programCard greedyProgram) 9 [0x2F, 0x41] (ready greedyProgram board))).map
      fun x => decide (Read.bytes 84 64 ∈ x.2)) = some true := by
    decide +kernel
  have hfar : ((outcome (loadELFTraced (programCard farProgram) 9 [0x2F, 0x41] (ready farProgram board))).map
      fun x => decide (Read.field 0x10034 0x20 0 0 0x34 ∈ x.2)) = some true := by
    decide +kernel
  constructor
  · intro h
    obtain ⟨x, hx, hr⟩ := Option.map_eq_some_iff.mp hgreedy
    have := (h _ _ _ _ (hsize _ (by simp)) (outcome_some bootMachine hx) _ (of_decide_eq_true hr)).1 147 (by unfold Read.Covers; omega)
    exact absurd this (by decide)
  · intro h
    obtain ⟨x, hx, hr⟩ := Option.map_eq_some_iff.mp hfar
    have := (h _ _ _ _ (hsize _ (by simp)) (outcome_some bootMachine hx) _ (of_decide_eq_true hr)).2
    exact absurd this (by unfold Read.Untruncated; decide)

end OpenGpos.Kernel
