/-
  OpenGpos.Kernel.Leaks — what loadELF takes and gives back. A handle that fat32_open gives is
  never closed, and the buffer is freed on one of its return paths only: a call leaves the
  handles and the heap as they were if it gets neither, or frees what it got
  (`loads_release`). Every file that opens costs one of the 16 handles (`loads_take_slots`).
-/
import OpenGpos.Kernel.Load
import OpenGpos.Libc.HeapSizes

namespace OpenGpos.Kernel

open OpenGpos.Lib OpenGpos.Lib.Bytes OpenGpos.Lib.Tiling OpenGpos.Lib.Runs OpenGpos.Fat
open OpenGpos.Libc.Heap (board Region Inv Tiled Aligned Given CutsLast payload malloc free initMalloc align4 malloc_tiled
  malloc_leftover malloc_inv free_block free_returns grant chained_unique init_inv)

/-! ## Calls -/

structure LoadCall where
  env : Env
  fuel : Nat
  path : List UInt8

/-- A call that returns. -/
def Loads (k : Machine) (l : LoadCall) (k' : Machine) : Prop := ∃ entry, loadELF l.env l.fuel l.path k = .ok (entry, k')

/-- The heap has a block in use with this payload. -/
def Allocated (r : Region) (h : Libc.Heap.St) (a : Nat × Nat) : Prop := ∃ bs, Tiled r h bs ∧ a ∈ (inUse bs).map payload

/-- The same handles are open and the same blocks in use. -/
structure SameResources (r : Region) (k k' : Machine) : Prop where
  handles : ∀ i, (k'.fat.handles i).isFree = (k.fat.handles i).isFree
  blocks : ∀ a, Allocated r k'.heap a ↔ Allocated r k.heap a

/-- The path is that of no file, or there is no slot for one. -/
def Unopened (k : Machine) (l : LoadCall) : Prop :=
  (∀ i, (k.fat.handles i).isFree = false) ∨
      ∀ file w, getFile l.env l.fuel l.path default k.fat ≠ .ok ((.success, file), w)

/-- Every block of the heap is in use. -/
def HeapFull (r : Region) (h : Libc.Heap.St) : Prop := ∀ bs, Tiled r h bs → ∀ b ∈ bs, b.used = true

/-- A buffer of no bytes, at `data` in the heap `h`, holds a header that is not refused. -/
def TakesStale (k : Machine) (data : Nat) (h : Libc.Heap.St) : Prop :=
  malloc 0 k.heap = some (data, h) ∧ data ≠ 0 ∧ invalidExecutable (Machine.bytesAt { k with heap := h } data) = false

/-- The loop on what is at `data` leaves the heap alone. -/
def LeavesHeap (r : Region) (data : Nat) (k : Machine) : Prop :=
  SameOn r.lo r.heapEnd k.heap.mem (loadProgram data (readLe16 (k.bytesAt data) 0x2C).toNat k).heap.mem

/-- What a call has to meet to give back what it takes: no file is opened, and there is no buffer,
    or one that is loaded as a program and freed. -/
structure Releases (r : Region) (k : Machine) (l : LoadCall) : Prop where
  unopened : Unopened k l
  unallocated : HeapFull r k.heap ∨ ∃ data h, TakesStale k data h ∧ LeavesHeap r data { k with heap := h }

/-- A buffer of no bytes is loaded as a program, over the heap. -/
def LoadedOver (r : Region) (k : Machine) : Prop := ∃ data h, TakesStale k data h ∧ ¬LeavesHeap r data
    { k with heap := h }

/-! ## Handles -/

section
variable {env : Env} {fuel : Nat} {path : List UInt8} {k k1 k' : Machine} {l : LoadCall} {data : Nat} {ok : Bool} {v : UInt32}

theorem noFile_size {w w' : World} {size : UInt32} (h : fat32GetSize noFile w = .ok (size, w')) : size = 0 := by
  unfold fat32GetSize at h
  rw [dif_neg (by decide)] at h
  cases h
  rfl

/-- Whether fat32_open takes a slot. -/
theorem open_takes {id : UInt32} {w : World} (h : fat32Open l.env l.fuel l.path 0 k.fat = .ok (id, w)) :
    Unopened k l ∧ id = noFile ∧ w.handles = k.fat.handles ∨
    ¬Unopened k l ∧ ∃ i file, (k.fat.handles i).isFree = true ∧
      w.handles = fun j => if j = i then openHandle file 0 else k.fat.handles j := by
  rw [fat32Open_eq] at h
  cases hg : getFile l.env l.fuel l.path default k.fat with
  | error e =>
    rw [hg] at h
    cases h
  | ok x =>
    obtain ⟨⟨res, file⟩, w1⟩ := x
    have hq : Quiet fun s => s.handles = k.fat.handles := ⟨⟨fun _ _ h => h⟩, fun _ h => h⟩
    have hhan : w1.handles = k.fat.handles := getFile_keeps l.env hq l.fuel l.path default k.fat rfl _ _ hg
    rw [hg] at h
    simp only [ok_bind, openResult, Except.ok.injEq] at h
    by_cases hs : res = .success
    · subst hs
      simp only [ne_eq, not_true_eq_false, if_false] at h
      cases hf : (List.finRange 16).find? fun i => (w1.handles i).isFree with
      | none =>
        rw [hf] at h
        cases h
        refine Or.inl ⟨Or.inl fun i => ?_, rfl, hhan⟩
        rw [← hhan]
        simpa using List.find?_eq_none.mp hf i (List.mem_finRange i)
      | some i =>
        rw [hf] at h
        cases h
        have hfree : (w1.handles i).isFree = true := by simpa using List.find?_some hf
        rw [hhan] at hfree
        refine Or.inr ⟨?_, i, file, hfree, funext fun j => by rw [← hhan]⟩
        rintro (ht | hno)
        · rw [ht i] at hfree
          cases hfree
        · exact hno _ _ hg
    · simp only [ne_eq, hs, not_false_eq_true, if_true] at h
      cases h
      refine Or.inl ⟨Or.inr fun file' w' he => hs ?_, rfl, hhan⟩
      rw [hg] at he
      cases he
      rfl

/-- The ways a call returns. -/
theorem loadELF_cases (h : loadELF env fuel path k = .ok (v, k')) : ∃ data ok k1,
    readFile env fuel path k = .ok ((data, ok), k1) ∧
    (data = 0 ∧ k' = k1 ∨ data ≠ 0 ∧ invalidExecutable (k1.bytesAt data) = true ∧ k' = k1 ∨
      data ≠ 0 ∧ invalidExecutable (k1.bytesAt data) = false ∧
        ∃ h2, free data (loadProgram data (readLe16 (k1.bytesAt data) 0x2C).toNat k1).heap = some ((), h2) ∧
          k' = { loadProgram data (readLe16 (k1.bytesAt data) 0x2C).toNat k1 with heap := h2 }) := by
  have hrun := h
  unfold loadELF at h
  obtain ⟨x, k1, hr, h⟩ := bind_inv h
  obtain ⟨data, ok⟩ := x
  refine ⟨data, ok, k1, hr, ?_⟩
  by_cases hz : data = 0
  · simp only [hz, if_true] at h
    cases h
    exact Or.inl ⟨hz, rfl⟩
  · simp only [if_neg hz, bind_apply, get_apply, ok_bind] at h
    cases hacc : invalidExecutable (k1.bytesAt data) with
    | true =>
      rw [if_pos hacc] at h
      cases h
      exact Or.inr (Or.inl ⟨hz, rfl, rfl⟩)
    | false =>
      rw [loadELF_read hr hz hacc] at hrun
      obtain ⟨h2, e⟩ := free_returns data (loadProgram data (readLe16 (k1.bytesAt data) 0x2C).toNat k1).heap
      rw [onHeap_ok e] at hrun
      cases hrun
      exact Or.inr (Or.inr ⟨hz, rfl, h2, e, rfl⟩)

/-- Once the file is open, no handle opens or closes. -/
theorem loads_handles (h : Loads k l k') : ∃ id w, fat32Open l.env l.fuel l.path 0 k.fat = .ok (id, w) ∧
    ∀ j, (k'.fat.handles j).isFree = (w.handles j).isFree := by
  obtain ⟨v, h⟩ := h
  obtain ⟨data, ok, k1, hr, hcase⟩ := loadELF_cases h
  obtain ⟨id, size, w, h1, ho, -, -, hread⟩ := readFile_calls hr
  have hk1 : ∀ j, (k1.fat.handles j).isFree = (w.handles j).isFree := by
    intro j
    rcases hread with ⟨-, -, rfl⟩ | ⟨-, hto⟩
    · rfl
    · obtain ⟨buffer, w', e, rfl⟩ := fat32ReadTo_inv hto
      exact fat32Read_isFree l.env e j
  refine ⟨id, w, ho, fun j => ?_⟩
  rcases hcase with ⟨-, rfl⟩ | ⟨-, -, rfl⟩ | ⟨-, -, h2, -, rfl⟩
  · exact hk1 j
  · exact hk1 j
  · rw [← hk1 j]
    exact congrArg (fun w : World => (w.handles j).isFree) (loadSegments_rest _ _ _ _ k1).1

/-- A call keeps the set of open handles exactly if nothing is opened. -/
theorem handles_iff (h : Loads k l k') : (∀ i, (k'.fat.handles i).isFree = (k.fat.handles i).isFree) ↔ Unopened k l :=
    by
  obtain ⟨id, w, ho, hk⟩ := loads_handles h
  rcases open_takes ho with ⟨hu, -, hhan⟩ | ⟨hu, i, file, hfree, hhan⟩
  · refine ⟨fun _ => hu, fun _ j => ?_⟩
    rw [hk j, hhan]
  · refine ⟨fun hsame => ?_, fun hu' => absurd hu' hu⟩
    have hi := hsame i
    rw [hk i, hhan, hfree] at hi
    simp only [if_true] at hi
    cases hi

/-! ## Slots -/

def freeSlots (k : Machine) : Finset Slot := Finset.univ.filter fun i => (k.fat.handles i).isFree = true

theorem opened_slot (h : Loads k l k') (ho : ¬Unopened k l) : (freeSlots k').card + 1 = (freeSlots k).card := by
  obtain ⟨id, w, hopen, hk⟩ := loads_handles h
  rcases open_takes hopen with ⟨hu, -⟩ | ⟨-, i, file, hfree, hhan⟩
  · exact absurd hu ho
  have hmem : i ∈ freeSlots k := Finset.mem_filter.mpr ⟨Finset.mem_univ i, hfree⟩
  have hers : freeSlots k' = (freeSlots k).erase i := by
    ext j
    unfold freeSlots
    rw [Finset.mem_filter, Finset.mem_erase, Finset.mem_filter, hk j, hhan]
    by_cases e : j = i
    · simp [e, openHandle]
    · simp [e]
  rw [hers, Finset.card_erase_add_one hmem]

/-- Files that open cost a slot each: there are at most 16 such loads, whatever the rest of them did. -/
theorem loads_take_slots {ls : List LoadCall} (h : Run (Guard (fun k l => ¬Unopened k l) Loads) k ls k') :
    ls.length + (freeSlots k').card = (freeSlots k).card := by
  induction h with
  | nil => exact Nat.zero_add _
  | cons hs _ ih =>
    have := opened_slot hs.2 hs.1
    rw [List.length_cons]
    omega

end

/-! ## The heap -/

section
variable {r : Region} {k k1 k' : Machine} {l : LoadCall} {live : List (Nat × Nat)} {bs : List Block} {data : Nat} {ok : Bool}
  {h : Libc.Heap.St}

theorem Inv.allocated_iff (hi : Inv r h live bs) (a : Nat × Nat) : Allocated r h a ↔ a ∈ live := by
  rw [hi.live a]
  constructor
  · rintro ⟨cs, ht, ha⟩
    rwa [chained_unique hi.tiled.chain ht.chain]
  · exact fun ha => ⟨bs, hi.tiled, ha⟩

theorem putBytes_same (k : Machine) (data : Nat) : k.putBytes data (k.bytesAt data) = k := by
  have hmem : (k.putBytes data (k.bytesAt data)).heap.mem = k.heap.mem := by
    funext a
    by_cases hge : data ≤ a
    · refine (putBytes_from hge).trans ?_
      unfold Machine.bytesAt
      rw [Nat.add_sub_cancel' hge]
    · exact putBytes_below (Nat.lt_of_not_le hge)
  exact congrArg (fun m => { k with heap := { k.heap with mem := m } }) hmem

/-- A call without a file asks for no bytes, and reads none. -/
theorem readFile_unopened (hu : Unopened k l) (hr : readFile l.env l.fuel l.path k = .ok ((data, ok), k1)) :
    ∃ w h, w.handles = k.fat.handles ∧ malloc 0 k.heap = some (data, h) ∧ k1 = ⟨w, h, k.written⟩ := by
  obtain ⟨id, size, w, h, ho, hs, hm, hread⟩ := readFile_calls hr
  rcases open_takes ho with ⟨-, rfl, hhan⟩ | ⟨hn, -⟩
  · obtain rfl := noFile_size hs
    refine ⟨w, h, hhan, hm, ?_⟩
    rcases hread with ⟨-, -, rfl⟩ | ⟨-, hto⟩
    · rfl
    · obtain ⟨buffer, w', e, rfl⟩ := fat32ReadTo_inv hto
      unfold fat32Read at e
      rw [dif_neg (by decide)] at e
      cases e
      exact congrArg (fun k : Machine => { k with fat := w }) (putBytes_same _ data)
  · exact absurd hu hn

/-- Blocks that fit nothing are in use. -/
theorem fits_zero {b : Block} : fits 0 b = false ↔ b.used = true := by
  unfold fits
  simp

theorem heapFull_iff (ht : Tiled r h bs) : HeapFull r h ↔ ∀ b ∈ bs, fits (align4 0) b = false := by
  rw [show align4 0 = 0 by decide]
  constructor
  · exact fun hf b hb => fits_zero.mpr (hf bs ht b hb)
  · intro hf cs hc b hb
    rw [chained_unique hc.chain ht.chain] at hb
    exact fits_zero.mp (hf b hb)

theorem align4_zero : align4 (0 : UInt32).toNat = 0 := by decide

/-- Bytes of the word in front. -/
theorem load32_byte (m : Mem) (a : Nat) : (m a).toNat = load32 m a % 2 ^ 8 := by
  have h0 := (m a).toNat_lt
  unfold load32
  omega

theorem accepted_magic {d : Buf} (h : invalidExecutable d = false) : d 0 = 0x7F := by
  unfold invalidExecutable at h
  by_contra hne
  rw [if_pos (Or.inl hne)] at h
  cases h

/-- A program is loaded from a whole block only: the header of a leftover is none. -/
theorem TakesStale.whole (hs : TakesStale k data h) (hi : Inv r k.heap live bs) (ha : Aligned bs) :
    ∃ pre b post, bs = pre ++ b :: post ∧ (∀ q ∈ pre, q.used = true) ∧ b.used = false ∧ data = b.addr + 16 ∧
      b.size ≤ 20 := by
  obtain ⟨hm, hne, hacc⟩ := hs
  rcases malloc_leftover hi.tiled hm with rfl | ⟨pre, b, post, rfl, hp, hb, rfl, hprev⟩
  · exact absurd rfl hne
  rw [align4_zero] at hp hb hprev
  refine ⟨pre, b, post, rfl, fun q hq => fits_zero.mp (hp q hq), ?_, rfl, ?_⟩
  · by_contra hu
    rw [fits_zero.mpr (by simpa using hu)] at hb
    cases hb
  · by_contra hlt
    have hword := hprev (by omega)
    have hbyte := load32_byte h.mem (b.addr + 16)
    have halign := ha b (by simp)
    have h0 : h.mem (b.addr + 16) = 0x7F := accepted_magic hacc
    rw [Nat.add_zero] at hword
    rw [hword, h0] at hbyte
    have h7F : (0x7F : UInt8).toNat = 127 := rfl
    omega

/-- Taking such a block and freeing it again changes nothing. -/
theorem TakesStale.back (hs : TakesStale k data h) (hi : Inv r k.heap live bs) (ha : Aligned bs)
    {h1 h2 : Libc.Heap.St} (hsame : SameOn r.lo r.heapEnd h.mem h1.mem) (hhead : h1.head = h.head)
    (hfree : free data h1 = some ((), h2)) : Inv r h2 live bs := by
  obtain ⟨pre, b, post, rfl, hp, hb, rfl, hsize⟩ := hs.whole hi ha
  have hfitp : ∀ q ∈ pre, fits 0 q = false := fun q hq => fits_zero.mpr (hp q hq)
  have hfitb : fits 0 b = true := by
    unfold fits
    simp [hb]
  have hcut : CutsLast (align4 (0 : UInt32).toNat) (pre ++ b :: post) := by
    intro pre' c post' e hp' hc hlt
    rw [align4_zero] at hp' hc hlt
    by_cases hbc : b = c
    · subst hbc
      omega
    · rcases mid_or_mid hbc e with ⟨t, rfl, -⟩ | ⟨t, rfl, -⟩
      · rw [hfitp c (by simp)] at hc
        cases hc
      · rw [hp' b (by simp)] at hfitb
        cases hfitb
  obtain ⟨p, h', bs', rfl, hm, hi', -, -, hgrant⟩ := malloc_inv 0 hi hcut
  rw [hs.1] at hm
  cases hm
  obtain ⟨sz, hg, -, hfresh⟩ := hgrant hs.2.1
  rw [hg, align4_zero, takeFirst_mid 16 hfitp hfitb, carve, if_neg (by omega)] at hi'
  obtain ⟨h3, e, hi3, -⟩ := free_block (hi'.congr hsame hhead) rfl
  rw [hfree] at e
  cases e
  -- the neighbours are in use
  have hfreed : ({ ({ b with used := true } : Block) with used := false } : Block) = b := by
    cases b
    cases hb
    rfl
  have habsorb : absorb 16 b post = b :: post := by
    cases post with
    | nil => rfl
    | cons c post =>
      have hc := (packed_mid.mp hi.packed).2.2.2 c rfl
      rw [hb] at hc
      rw [absorb, if_pos (hc.resolve_left (by decide))]
  rw [hfreed, habsorb, joinBack_used hp, List.filter_cons_of_neg (by simp),
    List.filter_eq_self.mpr fun a hal => by simpa using hfresh a hal] at hi3
  exact hi3

/-- The loop does not look at the handles. -/
theorem loadSegments_fat (data : Nat) (ePhoff ePhentsize : UInt32) (n : Nat) (k : Machine) (w : World) :
    loadSegments data ePhoff ePhentsize n { k with fat := w } =
      { loadSegments data ePhoff ePhentsize n k with fat := w } := by
  induction n with
  | zero => rfl
  | succ n ih =>
    rw [loadSegments, ih, loadSegments]
    unfold loadSegment
    dsimp only
    split
    · next hc => exact (if_pos hc).symm ▸ rfl
    · next hc => exact (if_neg hc).symm ▸ rfl

theorem loadProgram_fat (data n : Nat) (w : World) :
    (loadProgram data n { k with fat := w }).heap = (loadProgram data n k).heap := by
  have h := congrArg Machine.heap
    (loadSegments_fat data (readField (k.bytesAt data) 0x1C) (readLe16 (k.bytesAt data) 0x2A).toUInt32 n k w)
  exact h

/-- A call that meets the condition leaves the heap as it is, block by block. -/
theorem Releases.step (hg : Releases r k l) (hl : Loads k l k') (hi : Inv r k.heap live bs) (ha : Aligned bs) :
    Inv r k'.heap live bs := by
  obtain ⟨v, hrun⟩ := hl
  obtain ⟨data, ok, k1, hr, hcase⟩ := loadELF_cases hrun
  obtain ⟨w, h, -, hm, rfl⟩ := readFile_unopened hg.unopened hr
  rcases hg.unallocated with hfull | ⟨data', h', hs, hleave⟩
  · -- no block, no buffer
    rcases malloc_tiled hi.tiled 0 with ⟨-, h1, e, hmem, hhead⟩ | ⟨got, h1, bs1, -, hgiven⟩
    · rw [hm] at e
      cases e
      rcases hcase with ⟨-, rfl⟩ | ⟨hne, -⟩ | ⟨hne, -⟩
      · refine hi.congr (fun a _ _ => ?_) hhead
        rw [hmem]
      · exact absurd rfl hne
      · exact absurd rfl hne
    · obtain ⟨b, hb, hu, -⟩ := hgiven.taken
      rw [hfull bs hi.tiled b hb] at hu
      cases hu
  · have hm' := hs.1
    rw [hm] at hm'
    cases hm'
    rcases hcase with ⟨hz, -⟩ | ⟨-, hacc, -⟩ | ⟨-, -, h2, hfree, rfl⟩
    · exact absurd hz hs.2.1
    · have hstale := hs.2.2
      rw [show Machine.bytesAt { k with heap := h } data = Machine.bytesAt ⟨w, h, k.written⟩ data from rfl,
        hacc] at hstale
      cases hstale
    · have hloop := loadProgram_fat (k := { k with heap := h }) data
        (readLe16 (Machine.bytesAt ⟨w, h, k.written⟩ data) 0x2C).toNat w
      rw [hloop] at hfree
      exact hs.back hi ha hleave (loadSegments_rest _ _ _ _ { k with heap := h }).2 hfree

/-- A call that keeps handles and blocks meets the condition, or loaded something over the heap. -/
theorem SameResources.releases (hsame : SameResources r k k') (hl : Loads k l k') (hi : Inv r k.heap live bs) :
    Releases r k l ∨ LoadedOver r k := by
  have hu := (handles_iff hl).mp hsame.handles
  obtain ⟨v, hrun⟩ := hl
  obtain ⟨data, ok, k1, hr, hcase⟩ := loadELF_cases hrun
  obtain ⟨w, h, -, hm, rfl⟩ := readFile_unopened hu hr
  rcases malloc_tiled hi.tiled 0 with ⟨hfull, -⟩ | ⟨got, h1, bs1, e, hgiven⟩
  · exact Or.inl ⟨hu, Or.inl ((heapFull_iff hi.tiled).mpr hfull)⟩
  · rw [hm] at e
    cases e
    rcases hcase with ⟨hz, -⟩ | ⟨-, -, rfl⟩ | ⟨hne, hacc, -⟩
    · exact absurd hz (Nat.succ_ne_zero _)
    · -- the block is still in use
      have hgot : Allocated r h (payload got) :=
        ⟨bs1, hgiven.tiled, List.mem_map.mpr ⟨got, (hgiven.blocks got).mpr (Or.inl rfl), rfl⟩⟩
      obtain ⟨cs, ht, hmem⟩ := (hsame.blocks _).mp hgot
      rw [chained_unique ht.chain hi.tiled.chain] at hmem
      obtain ⟨x, hx, hpay⟩ := List.mem_map.mp hmem
      have haddr : x.addr + 16 = got.addr + 16 := congrArg Prod.fst hpay
      exact absurd (Nat.add_right_cancel haddr) (hgiven.apart x hx)
    · have hs : TakesStale k (got.addr + 16) h := ⟨hm, hne, hacc⟩
      by_cases hleave : LeavesHeap r (got.addr + 16) { k with heap := h }
      · exact Or.inl ⟨hu, Or.inr ⟨_, h, hs, hleave⟩⟩
      · exact Or.inr ⟨_, h, hs, hleave⟩

/-- From every well-formed heap: after any number of calls that meet the condition, the same
    handles are open and the same blocks in use; and one call keeps them exactly if it meets the
    condition, except where it loads what it found in the heap over the heap. Segments are taken to
    lie apart from the kernel's stack and statics. -/
theorem loads_release (hi : Inv r k.heap live bs) (ha : Aligned bs) :
    (∀ ls k', Run (Guard (Releases r) Loads) k ls k' → SameResources r k k') ∧
      ∀ l k', Loads k l k' → (SameResources r k k' ↔ Releases r k l) ∨ LoadedOver r k := by
  have hone : ∀ {k2 : Machine} {l : LoadCall} {k3 : Machine}, Inv r k2.heap live bs → Releases r k2 l → Loads k2 l k3 →
      (∀ i, (k3.fat.handles i).isFree = (k2.fat.handles i).isFree) ∧ Inv r k3.heap live bs :=
    fun hi2 hg hl => ⟨(handles_iff hl).mpr hg.unopened, hg.step hl hi2 ha⟩
  have hsame : ∀ {k2 : Machine}, (∀ i, (k2.fat.handles i).isFree = (k.fat.handles i).isFree) → Inv r k2.heap live bs →
      SameResources r k k2 :=
    fun hh hi2 => ⟨hh, fun a => (Inv.allocated_iff hi2 a).trans (Inv.allocated_iff hi a).symm⟩
  constructor
  · intro ls k' hrun
    let Kept (k2 : Machine) : Prop := (∀ i, (k2.fat.handles i).isFree = (k.fat.handles i).isFree) ∧
      Inv r k2.heap live bs
    have hstep : ∀ k2 l k3, Kept k2 → Guard (Releases r) Loads k2 l k3 → Kept k3 := by
      intro k2 l k3 h2 hs
      obtain ⟨hh, hi3⟩ := hone h2.2 hs.1 hs.2
      exact ⟨fun i => (hh i).trans (h2.1 i), hi3⟩
    have hinv : Kept k' := hrun.invariant hstep ⟨fun _ => rfl, hi⟩
    exact hsame hinv.1 hinv.2
  · intro l k' hl
    by_cases hover : LoadedOver r k
    · exact Or.inr hover
    · refine Or.inl ⟨fun hs => (hs.releases hl hi).resolve_right hover, fun hg => ?_⟩
      obtain ⟨hh, hi'⟩ := hone hi hg hl
      exact hsame hh hi'

end

/-- After init_malloc. -/
theorem prepare_inv {env : Env} {r : Region} {k k' : Machine} (h : prepare env r k = .ok ((), k')) :
    Inv r k'.heap [] [⟨r.lo, r.heapSize - 16, false⟩] := by
  unfold prepare at h
  obtain ⟨_, k1, h1, h⟩ := bind_inv h
  obtain ⟨hp, e, rfl⟩ := onHeap_inv h1
  obtain ⟨_, k2, h2, h⟩ := bind_inv h
  obtain ⟨w, -, rfl⟩ := onFat_inv h2
  cases h
  obtain ⟨hp', e', hi⟩ := init_inv (r := r) k.heap
  rw [e] at e'
  cases e'
  exact hi

/-- `/A` on the card with the program. -/
def loadSmall : LoadCall := ⟨programCard (smallProgram 0x20009000), 9, [0x2F, 0x41]⟩

theorem ready_heap : Inv board (ready (smallProgram 0x20009000) board).heap []
    [⟨board.lo, board.heapSize - 16, false⟩] := by
  have hprep : outcome (prepare (programCard (smallProgram 0x20009000)) board bootMachine) = some () :=
      by decide +kernel
  exact prepare_inv (outcome_some bootMachine hprep)

/-- The machine whose heap is given away as one block. -/
def fullMachine : Machine := final bootMachine (onHeap (malloc 0x7FF0) (ready (smallProgram 0x20009000) board))

theorem fullMachine_heap : ∃ live, Inv board fullMachine.heap live [⟨0x20000000, 0x7FF0, true⟩] := by
  have hcut : CutsLast (align4 (0x7FF0 : UInt32).toNat) [⟨board.lo, board.heapSize - 16, false⟩] := by
    intro pre b post h _ _ _
    cases pre with
    | nil => exact (List.cons.inj h).2.symm
    | cons c pre => exact absurd (List.cons.inj h).2.symm (by simp)
  obtain ⟨p, h', bs', hbs, e, hi, -⟩ := malloc_inv 0x7FF0 ready_heap hcut
  have htaken : bs' = [⟨0x20000000, 0x7FF0, true⟩] := hbs.trans (by decide +kernel)
  have hfull : fullMachine.heap = h' := by
    unfold fullMachine onHeap
    rw [e]
    rfl
  rw [hfull, ← htaken]
  exact ⟨_, hi⟩

/-- `/B`, which is not there. -/
def loadMissing : LoadCall := ⟨programCard (smallProgram 0x20009000), 9, [0x2F, 0x42]⟩

/-- Without a file and without a block for the buffer nothing is taken. -/
theorem loads_release_full : ∃ k', Loads fullMachine loadMissing k' ∧ Releases board fullMachine loadMissing ∧
    SameResources board fullMachine k' := by
  obtain ⟨live, hi⟩ := fullMachine_heap
  have ha : Aligned [⟨0x20000000, 0x7FF0, true⟩] := by
    unfold Aligned
    decide
  have hrun : outcome (loadELF loadMissing.env loadMissing.fuel loadMissing.path fullMachine) = some 2 :=
      by decide +kernel
  have hpath : (answer (getFile loadMissing.env loadMissing.fuel loadMissing.path default fullMachine.fat)).map Prod.fst =
      some .fileNotFound := by
    decide +kernel
  have hrel : Releases board fullMachine loadMissing := by
    refine ⟨Or.inr fun file w h => ?_, Or.inl ((heapFull_iff hi.tiled).mpr (by decide))⟩
    rw [h] at hpath
    cases hpath
  have hl : Loads fullMachine loadMissing _ := ⟨_, outcome_some bootMachine hrun⟩
  exact ⟨_, hl, hrel, (loads_release hi ha).1 [loadMissing] _ (.cons ⟨hrel, hl⟩ (.nil _))⟩

/-- `/A` is loaded and run, and its handle stays open. -/
theorem load_leaks : ∃ k', Loads (ready (smallProgram 0x20009000) board) loadSmall k' ∧
    ¬SameResources board (ready (smallProgram 0x20009000) board) k' := by
  have hrun : outcome (loadELF loadSmall.env loadSmall.fuel loadSmall.path (ready (smallProgram 0x20009000) board)) =
      some 0x20008000 := by
    decide +kernel
  have hbefore : ((ready (smallProgram 0x20009000) board).fat.handles 0).isFree = true := by decide +kernel
  have hafter : ((final bootMachine (loadELF loadSmall.env loadSmall.fuel loadSmall.path
      (ready (smallProgram 0x20009000) board))).fat.handles 0).isFree = false := by
    decide +kernel
  refine ⟨_, ⟨_, outcome_some bootMachine hrun⟩, fun hs => ?_⟩
  have := hs.handles 0
  rw [hbefore, hafter] at this
  cases this

end OpenGpos.Kernel
