/-
  OpenGpos.Lib.Elf — ELF32 images. A file is a function from offsets to bytes; its program
  header table gives the segments. `placeFirst` puts the first PT_LOAD segments in memory, one
  after the other; where the ranges do not meet, every segment is there in the end
  (`placeFirst_loaded`), whatever the order.
-/
import OpenGpos.Lib.Bytes

namespace OpenGpos.Lib.Elf

open OpenGpos.Lib.Bytes

/-! ## The file -/

structure Segment where
  type : Nat
  offset : Nat
  vaddr : Nat
  filesz : Nat
  memsz : Nat
  deriving DecidableEq, Repr

/-- PT_LOAD. -/
def Segment.isLoad (s : Segment) : Bool := s.type == 1

/-- Loading `s` writes the byte at `a`. -/
def Segment.Writes (s : Segment) (a : Nat) : Prop :=
  s.isLoad = true ∧ s.vaddr ≤ a ∧ (a < s.vaddr + s.filesz ∨ a < s.vaddr + s.memsz)

instance (s : Segment) (a : Nat) : Decidable (s.Writes a) := by
  unfold Segment.Writes
  infer_instance

section
variable (file : Mem)

def entry : Nat := load32 file 0x18
def phoff : Nat := load32 file 0x1C
def phentsize : Nat := load16 file 0x2A
def phnum : Nat := load16 file 0x2C

/-- Where header `i` of the table is. -/
def headerOffset (i : Nat) : Nat := phoff file + i * phentsize file

def segmentAt (o : Nat) : Segment where
  type := load32 file o
  offset := load32 file (o + 0x04)
  vaddr := load32 file (o + 0x08)
  filesz := load32 file (o + 0x10)
  memsz := load32 file (o + 0x14)

def segment (i : Nat) : Segment := segmentAt file (headerOffset file i)

/-- Loading the file writes the byte at `a`. -/
def Writes (a : Nat) : Prop := ∃ i < phnum file, (segment file i).Writes a

/-- Every header is inside the first `size` bytes. -/
def TableInside (size : Nat) : Prop := ∀ i < phnum file, headerOffset file i + 32 ≤ size

/-- An executable of `size` bytes: header and table are inside the file, and so is what the
    segments take from it. -/
structure WellFormed (size : Nat) : Prop where
  header : 52 ≤ size
  entsize : 32 ≤ phentsize file
  table : phoff file + phnum file * phentsize file ≤ size
  data : ∀ i < phnum file, (segment file i).isLoad = true → (segment file i).offset + (segment file i).filesz ≤ size
  sizes : ∀ i < phnum file, (segment file i).isLoad = true → (segment file i).filesz ≤ (segment file i).memsz
  space : ∀ i < phnum file, (segment file i).isLoad = true → (segment file i).vaddr + (segment file i).memsz ≤ 2 ^ 32

/-- No two segments are loaded to one address. -/
def Disjoint : Prop :=
  ∀ i < phnum file, ∀ j < phnum file, i ≠ j → ∀ a, (segment file i).Writes a → ¬(segment file j).Writes a

/-- `m'` is `m` with the program in place. Addresses in `own` may hold anything. -/
structure Loaded (own : Nat → Prop) (m m' : Mem) : Prop where
  data : ∀ i < phnum file, (segment file i).isLoad = true → ∀ k < (segment file i).filesz,
    m' ((segment file i).vaddr + k) = file ((segment file i).offset + k)
  zero : ∀ i < phnum file, (segment file i).isLoad = true → ∀ k, (segment file i).filesz ≤ k →
    k < (segment file i).memsz → m' ((segment file i).vaddr + k) = 0
  frame : ∀ a, ¬own a → ¬Writes file a → m' a = m a

variable {file}

theorem segmentAt_congr {m : Mem} {o : Nat} (h : SameOn o (o + 32) file m) : segmentAt m o = segmentAt file o := by
  unfold segmentAt
  rw [load32_congr (h.mono (Nat.le_refl o) (by omega)), load32_congr (h.mono (by omega) (by omega)),
    load32_congr (h.mono (by omega) (by omega)), load32_congr (h.mono (by omega) (by omega)),
    load32_congr (h.mono (by omega) (by omega))]

theorem WellFormed.tableInside {size : Nat} (h : WellFormed file size) : TableInside file size := by
  intro i hi
  have hmul := Nat.mul_le_mul_right (phentsize file) (Nat.succ_le_of_lt hi)
  rw [Nat.succ_mul] at hmul
  have ht := h.table
  have he := h.entsize
  unfold headerOffset
  omega

end

/-! ## Loading -/

/-- One segment in memory. -/
def Segment.place (s : Segment) (file m : Mem) : Mem := fun a =>
  if s.isLoad = true ∧ s.vaddr ≤ a ∧ a < s.vaddr + s.filesz then file (s.offset + (a - s.vaddr))
  else if s.Writes a then 0
  else m a

/-- The first `n` headers of the table. -/
def placeFirst (file : Mem) : Nat → Mem → Mem
  | 0, m => m
  | n + 1, m => (segment file n).place file (placeFirst file n m)

section
variable {file m : Mem} {s : Segment} {a n : Nat}

theorem Segment.place_out (h : ¬s.Writes a) : s.place file m a = m a := by
  unfold Segment.place
  rw [if_neg fun hc => h ⟨hc.1, hc.2.1, Or.inl hc.2.2⟩, if_neg h]

theorem Segment.place_data (hl : s.isLoad = true) {k : Nat} (hk : k < s.filesz) :
    s.place file m (s.vaddr + k) = file (s.offset + k) := by
  unfold Segment.place
  rw [if_pos ⟨hl, by omega, by omega⟩, Nat.add_sub_cancel_left]

theorem Segment.place_zero (hl : s.isLoad = true) {k : Nat} (hf : s.filesz ≤ k) (hk : k < s.memsz) :
    s.place file m (s.vaddr + k) = 0 := by
  unfold Segment.place
  rw [if_neg (by omega), if_pos ⟨hl, by omega, by omega⟩]

/-- What a segment puts at an address does not depend on the memory. -/
theorem Segment.place_congr {m' : Mem} (h : s.Writes a) : s.place file m a = s.place file m' a := by
  unfold Segment.place
  rw [if_pos h, if_pos h]

theorem placeFirst_out (h : ∀ i < n, ¬(segment file i).Writes a) : placeFirst file n m a = m a := by
  induction n with
  | zero => rfl
  | succ n ih =>
    rw [placeFirst, Segment.place_out (h n (Nat.lt_succ_self n))]
    exact ih fun i hi => h i (Nat.lt_succ_of_lt hi)

/-- A segment that no later one meets stays. -/
theorem placeFirst_in {i : Nat} (hi : i < n) (hw : (segment file i).Writes a)
    (hlater : ∀ j < n, i < j → ¬(segment file j).Writes a) :
    placeFirst file n m a = (segment file i).place file m a := by
  induction n with
  | zero => cases hi
  | succ n ih =>
    rw [placeFirst]
    rcases Nat.lt_succ_iff_lt_or_eq.mp hi with hlt | heq
    · rw [Segment.place_out (hlater n (Nat.lt_succ_self n) hlt)]
      exact ih hlt fun j hj => hlater j (Nat.lt_succ_of_lt hj)
    · subst heq
      exact Segment.place_congr hw

theorem placeFirst_loaded (hd : Disjoint file) (m : Mem) :
    Loaded file (fun _ => False) m (placeFirst file (phnum file) m) := by
  have alone : ∀ i < phnum file, ∀ b, (segment file i).Writes b → ∀ j < phnum file, i < j → ¬(segment file j).Writes b :=
    fun i hi b hw j hj hij => hd i hi j hj (Nat.ne_of_lt hij) b hw
  constructor
  · intro i hi hl k hk
    have hw : (segment file i).Writes ((segment file i).vaddr + k) := ⟨hl, by omega, Or.inl (by omega)⟩
    rw [placeFirst_in hi hw (alone i hi _ hw)]
    exact Segment.place_data hl hk
  · intro i hi hl k hf hk
    have hw : (segment file i).Writes ((segment file i).vaddr + k) := ⟨hl, by omega, Or.inr (by omega)⟩
    rw [placeFirst_in hi hw (alone i hi _ hw)]
    exact Segment.place_zero hl hf hk
  · intro b _ hno
    exact placeFirst_out fun i hi hw => hno ⟨i, hi, hw⟩

/-- What is changed in `own` only does not unload the program. -/
theorem Loaded.mono {own own' : Nat → Prop} {m' m0 m1 : Mem} (h : Loaded file own m m')
    (hbefore : ∀ b, ¬own' b → m b = m0 b) (hafter : ∀ b, ¬own' b → m1 b = m' b) (hown : ∀ b, own b → own' b)
    (hw : ∀ b, Writes file b → ¬own' b) : Loaded file own' m0 m1 := by
  constructor
  · intro i hi hl k hk
    rw [hafter _ (hw _ ⟨i, hi, hl, by omega, Or.inl (by omega)⟩)]
    exact h.data i hi hl k hk
  · intro i hi hl k hf hk
    rw [hafter _ (hw _ ⟨i, hi, hl, by omega, Or.inr (by omega)⟩)]
    exact h.zero i hi hl k hf hk
  · intro b hb hno
    rw [hafter b hb, h.frame b (fun ho => hb (hown b ho)) hno]
    exact hbefore b hb

end

end OpenGpos.Lib.Elf
