/-
  OpenGpos.Libc.HeapInv — runs of the allocator. `splitMemorySpace` leaves the `prev` of
  the block behind the one it cuts; a run that never cuts a block with a successor
  (`Safe`) keeps the list well formed (`run_inv`), never touches a live payload
  (`safe_run_payloads`), and ends in one free block when everything is freed
  (`safe_run_defragments`). One cut in front of another block and each of the three fails.
-/
import OpenGpos.Lib.Runs
import OpenGpos.Libc.HeapSpec

namespace OpenGpos.Libc.Heap

open OpenGpos.Lib.Bytes OpenGpos.Lib.Tiling OpenGpos.Lib.Runs

/-- First byte of the list. -/
def Region.lo (r : Region) : Nat := align4 r.heapStart

/-- A well-formed block list: it starts at the aligned heap start, tiles the heap, and is
    chained both ways. -/
structure WellFormed (r : Region) (h : St) (bs : List Block) : Prop where
  ne : bs ≠ []
  head : h.head = r.lo
  linked : Linked r.lo r.heapEnd h.mem bs
  sum : (bs.map fun b => 16 + b.size).sum = r.heapSize

/-- `splitMemorySpace` will not cut the block that `malloc(size)` takes, or cuts the last
    block of the list. -/
def cutsLast (h : St) (size : UInt32) : Bool :=
  match findFreeSpace (align4 size.toNat) h with
  | some (b, _) => b == 0 || decide (load32 h.mem (b + 8) ≤ align4 size.toNat + 20) || load32 h.mem (b + 4) == 0
  | none => true

/-- The condition on a step: no cut in front of another block, and no `realloc` to a size
    that `ALIGN_4BYTE` wraps to 0 (it would copy past the block it got). -/
def Safe (c : Client) : Op → Prop
  | .malloc size => cutsLast c.heap size = true
  | .realloc _ size => cutsLast c.heap size = true ∧ size.toNat ≤ 2 ^ 32 - 4
  | _ => True

/-- What the client holds: the pointer behind the header, and the size. -/
def payload (b : Block) : Nat × Nat := (b.addr + 16, b.size)

structure Inv (r : Region) (h : St) (live : List (Nat × Nat)) (bs : List Block) : Prop where
  ne : bs ≠ []
  head : h.head = r.lo
  linked : Linked r.lo r.heapEnd h.mem bs
  packed : Packed bs
  live : ∀ a, a ∈ live ↔ a ∈ (inUse bs).map payload

variable {r : Region} {h h' : St} {live : List (Nat × Nat)} {bs : List Block}

theorem Region.lo_le (r : Region) : r.heapStart ≤ r.lo ∧ r.lo < r.heapStart + 4 := by
  have := r.fits
  have hs : u32 (r.heapStart + 3) = r.heapStart + 3 := u32_of_lt (by omega)
  unfold Region.lo align4
  rw [hs]; omega

theorem Region.size_eq (r : Region) : r.lo + r.heapSize = r.heapEnd ∧ 16 ≤ r.heapSize ∧ r.heapEnd < 2 ^ 32 ∧
    0 < r.lo := by
  have h1 := r.lo_le
  have h2 := r.fits
  have h3 := r.nonNull
  have h4 : r.heapSize = r.heapEnd - r.lo := by
    unfold Region.heapSize
    exact sub32_of_le (by unfold Region.lo at h1; unfold Region.heapEnd; omega) h2
  unfold Region.heapEnd at *
  omega

theorem Inv.wellFormed (hi : Inv r h live bs) : WellFormed r h bs := by
  refine ⟨hi.ne, hi.head, hi.linked, ?_⟩
  have h1 := tiles_sum 16 hi.linked.tiles
  have h2 := r.size_eq
  omega

/-- `init_malloc` builds one free block. -/
theorem init_inv (h0 : St) : ∃ h, initMalloc r h0 = some ((), h) ∧ Inv r h [] [⟨r.lo, r.heapSize - 16, false⟩] := by
  have hs := r.size_eq
  have e1 : sub32 r.heapSize 16 = r.heapSize - 16 := sub32_of_le hs.2.1 (by omega)
  refine ⟨_, rfl, by simp, rfl, ⟨⟨rfl, ?_⟩, ⟨⟨?_, ?_, ?_⟩, trivial⟩, ?_, trivial⟩, List.isChain_singleton _, by
    simp [inUse]⟩
  · show r.lo + 16 + (r.heapSize - 16) = r.heapEnd
    omega
  · show load32 (store8 (store32 (store32 (store32 h0.mem r.lo 0) (r.lo + 4) 0) (r.lo + 8) _) (r.lo + 12) 0) (r.lo + 4) = 0
    simp (disch := omega) only [load32_store8_ne, load32_store32_ne, load32_store32]
  · show load32 (store8 (store32 (store32 (store32 h0.mem r.lo 0) (r.lo + 4) 0) (r.lo + 8) (sub32 r.heapSize 16))
      (r.lo + 12) 0) (r.lo + 8) = r.heapSize - 16
    rw [e1]
    simp (disch := omega) only [load32_store8_ne, load32_store32]
  · show (store8 _ (r.lo + 12) 0 (r.lo + 12) != 0) = false
    simp
  · show load32 (store8 (store32 (store32 (store32 h0.mem r.lo 0) (r.lo + 4) 0) (r.lo + 8) _) (r.lo + 12) 0) r.lo = 0
    simp (disch := omega) only [load32_store8_ne, load32_store32_ne, load32_store32]

/-! ## One call -/

theorem mem_payload {bs : List Block} {a : Nat × Nat} :
    a ∈ (inUse bs).map payload ↔ ∃ b ∈ bs, b.used = true ∧ a = (b.addr + 16, b.size) := by
  simp only [List.mem_map, mem_inUse, payload, and_assoc, eq_comm]

/-- A live pointer has its block in the list. -/
theorem Inv.block (hi : Inv r h live bs) {a : Nat × Nat} (ha : a ∈ live) :
    ∃ pre b post, bs = pre ++ b :: post ∧ b.used = true ∧ a = (b.addr + 16, b.size) := by
  obtain ⟨b, hb, hu, e⟩ := mem_payload.mp ((hi.live a).mp ha)
  obtain ⟨pre, post, rfl⟩ := List.append_of_mem hb
  exact ⟨pre, b, post, rfl, hu, e⟩

/-- The list survives a change inside one payload. -/
theorem Inv.write (hi : Inv r h live bs) {a : Nat × Nat} (ha : a ∈ live) {m : Mem}
    (hm : ∀ i, ¬ (a.1 ≤ i ∧ i < a.1 + a.2) → m i = h.mem i) (rs : List (Nat × Nat)) :
    Inv r ⟨m, h.head, rs⟩ live bs := by
  obtain ⟨b, hb, -, rfl⟩ := mem_payload.mp ((hi.live a).mp ha)
  have hsame : ∀ x ∈ bs, SameOn x.addr (x.addr + 16) h.mem m := by
    intro x hx i h1 h2
    refine hm i fun h34 => header_apart 16 hi.linked.tiles hx hb h1 h2 ⟨h34.1, ?_⟩
    have h4 := h34.2
    unfold Block.stop; simp only at h4; omega
  refine ⟨hi.ne, hi.head, ⟨hi.linked.tiles, ?_, ?_⟩, hi.packed, hi.live⟩
  · exact fwd_congr (fun x hx => (hsame x hx).mono (by omega) (by omega)) hi.linked.fwd
  · exact back_congr (fun x hx => (hsame x hx).mono (by omega) (by omega)) hi.linked.back

/-- The invariant is about the bytes of the heap only. -/
theorem Inv.congr (hi : Inv r h live bs) (hm : SameOn r.lo r.heapEnd h.mem h'.mem) (hh : h'.head = h.head) :
    Inv r h' live bs := by
  have hsame : ∀ x ∈ bs, SameOn x.addr (x.addr + 16) h.mem h'.mem := by
    intro x hx
    have hb := tiles_mem 16 hi.linked.tiles hx
    unfold Block.stop at hb
    exact hm.mono hb.1 (by omega)
  refine ⟨hi.ne, hh.trans hi.head, ⟨hi.linked.tiles, ?_, ?_⟩, hi.packed, hi.live⟩
  · exact fwd_congr (fun x hx => (hsame x hx).mono (by omega) (by omega)) hi.linked.fwd
  · exact back_congr (fun x hx => (hsame x hx).mono (by omega) (by omega)) hi.linked.back

/-- Taking the first block that fits `n` cuts none that has a successor. -/
def CutsLast (n : Nat) (bs : List Block) : Prop :=
  ∀ pre b post, bs = pre ++ b :: post → (∀ p ∈ pre, fits n p = false) → fits n b = true → n + 20 < b.size → post = []

/-- The invariant says nothing about what was read. -/
theorem Inv.setReads (hi : Inv r h live bs) (rs : List (Nat × Nat)) : Inv r { h with reads := rs } live bs :=
  ⟨hi.ne, hi.head, ⟨hi.linked.tiles, hi.linked.fwd, hi.linked.back⟩, hi.packed, hi.live⟩

/-- The header of a live allocation holds the size the client was given. -/
theorem Inv.size (hi : Inv r h live bs) {a : Nat × Nat} (ha : a ∈ live) : a.1 ≠ 0 ∧ load32 h.mem (a.1 - 8) = a.2 := by
  obtain ⟨pre, b, post, rfl, -, rfl⟩ := hi.block ha
  have hs := (fwd_right hi.linked.fwd).1.2.1
  have e : b.addr + 16 - 8 = b.addr + 8 := by omega
  exact ⟨by simp, by simp only [e, hs]⟩

theorem cutsLast_spec {size : UInt32} (hi : Inv r h live bs) (hc : cutsLast h size = true) :
    CutsLast (align4 size.toNat) bs := by
  intro pre b post he hp hb hlt
  obtain ⟨-, -, hhi, hpos⟩ := r.size_eq
  rcases find_spec (align4 size.toNat) h hi.linked.tiles hi.linked.fwd hi.ne hi.head hpos hhi with
    ⟨hno, -⟩ | ⟨pre', b', post', h', he', hp', hb', e, -, -⟩
  · rw [hno b (by rw [he]; simp)] at hb; cases hb
  obtain ⟨rfl, rfl⟩ := firstFit_unique (he.symm.trans he') hp hb hp' hb'
  subst he'
  obtain ⟨hn, hs, -⟩ := (fwd_right hi.linked.fwd).1
  have hmem := tiles_mem 16 hi.linked.tiles (b := b) (by simp)
  simp only [cutsLast, e, hn, hs, Bool.or_eq_true, beq_iff_eq, decide_eq_true_eq] at hc
  cases post with
  | nil => rfl
  | cons c post =>
    have := tiles_mem 16 hi.linked.tiles (b := c) (by simp)
    simp only [nextAddr] at hc
    omega

/-- `malloc` is first fit on the list, and keeps the invariant unless it cuts a block with
    a successor. -/
theorem malloc_inv (size : UInt32) (hi : Inv r h live bs) (hc : CutsLast (align4 size.toNat) bs) :
    ∃ p h' bs', bs' = takeFirst 16 4 (align4 size.toNat) bs ∧ malloc size h = some (p, h') ∧
      Inv r h' (grant live p h') bs' ∧ Edits (bs ++ bs') h h' ∧ (∀ b ∈ inUse bs, b ∈ bs') ∧
      (p ≠ 0 → ∃ sz, grant live p h' = (p, sz) :: live ∧ align4 size.toNat ≤ sz ∧ ∀ a ∈ live, a.1 ≠ p) := by
  obtain ⟨hsz, h16, hlt, hpos⟩ := r.size_eq
  have hlo := r.lo_le
  have hend : r.heapEnd = r.heapStart + 0x8000 := rfl
  rcases malloc_spec size h hi.linked.tiles hi.linked.fwd hi.ne hi.head hpos hlt (by omega) with
    ⟨hno, h', e, hm, hed⟩ | ⟨pre, b, post, h', rfl, hp, hb, e, hf, hbk, hed, -, -⟩
  · refine ⟨0, h', bs, (takeFirst_none 16 hno).symm, e, ⟨hi.ne, hed.head.trans hi.head, ?_, hi.packed, ?_⟩, ?_, ?_, fun h0 => absurd rfl h0⟩
    · rw [hm]; exact hi.linked
    · simpa [grant] using hi.live
    · exact hed.mono fun _ hi => hi.imp fun _ hx => ⟨List.mem_append_left _ hx.1, hx.2⟩
    · exact fun b hb => (mem_inUse.mp hb).1
  let n := align4 size.toNat
  let bs' := pre ++ carve 16 4 n b post
  have hcut := hc pre b post rfl hp hb
  have htake : bs' = takeFirst 16 4 n (pre ++ b :: post) := (takeFirst_mid 16 hp hb).symm
  obtain ⟨htp, htb⟩ := (tiles_mid 16).mp hi.linked.tiles
  have hl' : Linked r.lo r.heapEnd h'.mem bs' :=
    ⟨(tiles_append 16).mpr ⟨b.addr, htp, tiles_carve 16 htb⟩, hf, hbk hi.linked.back hcut⟩
  simp only [fits, Bool.and_eq_true, decide_eq_true_eq, Bool.not_eq_true'] at hb
  have huse : inUse bs' = inUse pre ++ handed 16 4 n b :: inUse post := by
    simp only [bs', inUse_append, inUse_carve]
  have huse0 : inUse (pre ++ b :: post) = inUse pre ++ inUse post := by
    rw [inUse_append, inUse_cons_free hb.1]
  have hh : handed 16 4 n b ∈ inUse bs' := by rw [huse]; simp
  obtain ⟨haddr, -, hsize⟩ := handed_spec 16 4 (show n ≤ b.size from hb.2)
  -- the size the client sees is the one in the new header
  have hg : grant live (b.addr + 16) h' = (b.addr + 16, (handed 16 4 n b).size) :: live := by
    obtain ⟨p1, p2, hp⟩ := List.append_of_mem (mem_inUse.mp hh).1
    have hf' := hl'.fwd
    rw [hp] at hf'
    have hs := (fwd_right hf').1.2.1
    rw [haddr] at hs
    have : b.addr + 16 - 8 = b.addr + 8 := by omega
    simp [grant, this, hs]
  have hsub : ∀ x ∈ inUse (pre ++ b :: post), x ∈ inUse bs' := by
    intro x hx
    rw [huse0, List.mem_append] at hx
    rw [huse, List.mem_append, List.mem_cons]
    tauto
  refine ⟨b.addr + 16, h', bs', htake, e, ⟨?_, hed.head.trans hi.head, hl', packed_carve 16 hi.packed, ?_⟩, hed,
    fun x hx => (mem_inUse.mp (hsub x hx)).1, fun _ => ⟨_, hg, hsize, ?_⟩⟩
  · intro h0
    rw [h0] at hh; cases hh
  · intro a
    rw [hg, huse, List.mem_cons, hi.live a, huse0]
    simp only [List.map_append, List.map_cons, List.mem_append, List.mem_cons, payload, haddr]
    tauto
  · intro a ha hp
    obtain ⟨x, hx, hu, rfl⟩ := mem_payload.mp ((hi.live a).mp ha)
    have : x = b := tiles_unique 16 (by omega) hi.linked.tiles hx (by simp) (by simp only at hp; omega)
    rw [this, hb.1] at hu; cases hu

/-- `free` of a used block keeps the invariant. -/
theorem free_block {pre post : List Block} {b : Block} (hi : Inv r h live (pre ++ b :: post)) (hu : b.used = true) :
    ∃ h', free (b.addr + 16) h = some ((), h') ∧
      Inv r h' (live.filter (·.1 != b.addr + 16)) (joinBack 16 pre (absorb 16 { b with used := false } post)) ∧
      Edits (pre ++ b :: post) h h' := by
  obtain ⟨-, -, hlt, hpos⟩ := r.size_eq
  obtain ⟨h', e, hl, hed⟩ := free_spec h hi.linked hpos hlt
  obtain ⟨hp1, hp2, -, -⟩ := packed_mid.mp hi.packed
  have huse : inUse (joinBack 16 pre (absorb 16 { b with used := false } post)) = inUse pre ++ inUse post := by
    rw [inUse_joinBack, inUse_absorb 16 rfl]
  refine ⟨h', e, ⟨?_, hed.head.trans hi.head, hl, packed_free 16 hp1 hp2, fun x => ?_⟩, hed⟩
  · intro h0
    have ht := hl.tiles
    have hlo := r.size_eq
    rw [show joinBack 16 pre (absorb 16 { b with used := false } post) = [] from h0] at ht
    simp only [Tiles] at ht
    omega
  · rw [List.mem_filter, hi.live x, huse, inUse_append, inUse_cons_used hu]
    have hne : ∀ y ∈ pre ++ post, (payload y).1 ≠ b.addr + 16 := by
      intro y hy heq
      obtain ⟨htp, htb⟩ := (tiles_mid 16).mp hi.linked.tiles
      simp only [payload] at heq
      rcases List.mem_append.mp hy with hy | hy
      · have := (tiles_mem 16 htp hy).2; unfold Block.stop at this; omega
      · have := (tiles_mem 16 htb hy).1; unfold Block.stop at this; omega
    have hne' : ∀ z ∈ (inUse pre ++ inUse post).map payload, z.1 ≠ b.addr + 16 := by
      intro z hz
      obtain ⟨y, hy, rfl⟩ := List.mem_map.mp hz
      rw [← inUse_append] at hy
      exact hne y (mem_inUse.mp hy).1
    have hb1 : (payload b).1 = b.addr + 16 := rfl
    constructor
    · rintro ⟨hx, hx1⟩
      simp only [bne_iff_ne, ne_eq] at hx1
      simp only [List.map_append, List.map_cons, List.mem_append, List.mem_cons] at hx ⊢
      rcases hx with hx | rfl | hx
      · exact Or.inl hx
      · exact absurd hb1 hx1
      · exact Or.inr hx
    · intro hx
      refine ⟨?_, by simpa using hne' x hx⟩
      simp only [List.map_append, List.map_cons, List.mem_append, List.mem_cons] at hx ⊢
      rcases hx with hx | hx
      · exact Or.inl hx
      · exact Or.inr (Or.inr hx)

/-- `free` of a live pointer keeps the invariant. -/
theorem free_inv {a : Nat × Nat} (hi : Inv r h live bs) (ha : a ∈ live) :
    ∃ h' bs', free a.1 h = some ((), h') ∧ Inv r h' (live.filter (·.1 != a.1)) bs' ∧ Edits bs h h' := by
  obtain ⟨pre, b, post, rfl, hu, rfl⟩ := hi.block ha
  obtain ⟨h', e, hi', hed⟩ := free_block hi hu
  exact ⟨h', _, e, hi', hed⟩

theorem le_align4 {n : Nat} (h : n ≤ 2 ^ 32 - 4) : n ≤ align4 n := by
  unfold align4
  rw [u32_of_lt (by omega : n + 3 < 2 ^ 32)]; omega

/-- `realloc` of a live pointer: `malloc`, a copy into the new payload, `free`. -/
theorem realloc_inv {a : Nat × Nat} (size : UInt32) (hi : Inv r h live bs) (ha : a ∈ live)
    (hc : CutsLast (align4 size.toNat) bs) (hw : size.toNat ≤ 2 ^ 32 - 4) :
    ∃ p h' bs', realloc a.1 size h = some (p, h') ∧
      Inv r h' (if p = 0 then live else grant (live.filter (·.1 != a.1)) p h') bs' := by
  have hi1 := hi.setReads ((sub32 a.1 16 + 8, 4) :: h.reads)
  obtain ⟨p, h2, bs2, -, e2, hi2, -, -, hp⟩ := malloc_inv size hi1 hc
  by_cases h0 : p = 0
  · refine ⟨0, h2, bs2, ?_, ?_⟩
    · simp [realloc, St.see, e2, h0]
    · simpa [h0, grant] using hi2
  obtain ⟨sz, hg, hsz, hne⟩ := hp h0
  rw [hg] at hi2
  let toCopy := if load32 h.mem (sub32 a.1 16 + 8) < size.toNat then load32 h.mem (sub32 a.1 16 + 8) else size.toNat
  have hle : toCopy ≤ sz := by
    have := le_align4 hw
    have : toCopy ≤ size.toNat := by unfold toCopy; split <;> omega
    omega
  -- the copy stays inside the new payload
  have hi3 : Inv r { h2 with mem := copy h2.mem p a.1 toCopy } ((p, sz) :: live) bs2 :=
    hi2.write (List.mem_cons_self) (fun i hn => copy_out (by simp only at hn; omega)) h2.reads
  obtain ⟨h4, bs4, e4, hi4, -⟩ := free_inv hi3 (List.mem_cons_of_mem _ ha)
  have hpa : p ≠ a.1 := fun e => hne a ha e.symm
  have hfil : ((p, sz) :: live).filter (·.1 != a.1) = (p, sz) :: live.filter (·.1 != a.1) :=
    List.filter_cons_of_pos (by simpa using hpa)
  rw [hfil] at hi4
  have hsize := (hi4.size List.mem_cons_self).2
  refine ⟨p, h4, bs4, ?_, ?_⟩
  · simp only [realloc, bind_apply, getSize_apply, Option.bind_some, St.see, e2, h0, if_false, memcpy, pure_apply]
    show (free a.1 { h2 with mem := copy h2.mem p a.1 toCopy }).bind _ = _
    rw [e4]; rfl
  · simpa [h0, grant, hsize] using hi4

/-! ## Runs -/

/-- The state of a client between calls. -/
def Client.Ok (r : Region) (c : Client) : Prop := ∃ bs, Inv r c.heap c.live bs

/-- What one call gives, from an invariant state and a safe operation: it returns, and the
    invariant holds again. -/
theorem call_inv {c : Client} {op : Op} (hi : c.Ok r) (ha : allowed c op = true) (hs : Safe c op) :
    ∃ c', call c op = some c' ∧ c'.Ok r := by
  obtain ⟨bs, hi⟩ := hi
  have hf := hi.setReads []
  cases op with
  | malloc size =>
    obtain ⟨p, h', bs', -, e, hi', -⟩ := malloc_inv size hf (cutsLast_spec hi hs)
    exact ⟨⟨h', grant c.live p h'⟩, by simp [call, e], bs', hi'⟩
  | free ptr =>
    by_cases h0 : ptr = 0
    · refine ⟨⟨{ c.heap with reads := [] }, c.live.filter (·.1 != ptr)⟩, by simp [call, free, h0], bs, ?_⟩
      have : c.live.filter (·.1 != ptr) = c.live := by
        refine List.filter_eq_self.mpr fun a ha => ?_
        obtain ⟨b, -, -, rfl⟩ := mem_payload.mp ((hi.live a).mp ha)
        simp [h0]
      rw [this]; exact hf
    · obtain ⟨a, hal, rfl⟩ : ∃ a ∈ c.live, a.1 = ptr := by simpa [allowed, h0, Client.isLive] using ha
      obtain ⟨h', bs', e, hi', -⟩ := free_inv hf hal
      exact ⟨⟨h', c.live.filter (·.1 != a.1)⟩, by simp [call, e], bs', hi'⟩
  | realloc ptr size =>
    obtain ⟨a, hal, rfl⟩ : ∃ a ∈ c.live, a.1 = ptr := by simpa [allowed, Client.isLive] using ha
    obtain ⟨p, h', bs', e, hi'⟩ := realloc_inv size hf hal (cutsLast_spec hi hs.1) hs.2
    exact ⟨⟨h', _⟩, by simp [call, e]; rfl, bs', hi'⟩
  | write addr v =>
    obtain ⟨a, ha, h1, h2⟩ : ∃ a ∈ c.live, a.1 ≤ addr ∧ addr < a.1 + a.2 := by simpa [allowed] using ha
    refine ⟨_, rfl, bs, hi.write ha (fun i hn => store8_out ?_) []⟩
    intro e
    subst e
    exact hn ⟨h1, h2⟩

theorem step_inv {c c' : Client} {op : Op} (hi : c.Ok r) (h : Guard Safe Step c op c') : c'.Ok r := by
  obtain ⟨hs, ha, e⟩ := h
  obtain ⟨c1, e1, hi1⟩ := call_inv hi ha hs
  rw [e] at e1
  cases e1; exact hi1

theorem start_inv {m : Mem} {c : Client} (h : start r m = some c) : c.Ok r := by
  obtain ⟨h0, e, hi⟩ := init_inv (r := r) ⟨m, 0, []⟩
  simp only [start, e, Option.bind_eq_bind, Option.bind_some, Option.pure_def, Option.some.injEq] at h
  rw [← h]; exact ⟨_, hi⟩

theorem run_inv {m : Mem} {c c' : Client} {ops : List Op} (h : start r m = some c) (hr : Run (Guard Safe Step) c ops c') :
    c'.Ok r := by
  have hstep : ∀ s op t, Client.Ok r s → Guard Safe Step s op t → Client.Ok r t := fun _ _ _ => step_inv
  exact hr.invariant hstep (start_inv h)

/-- A run computed: `none` when an operation is refused or does not return. -/
def play (ok : Client → Op → Bool) : Client → List Op → Option Client
  | c, [] => some c
  | c, op :: ops => if ok c op && allowed c op then (call c op).bind fun c' => play ok c' ops else none

theorem play_run {ok : Client → Op → Bool} {c c' : Client} {ops : List Op} (h : play ok c ops = some c') :
    Run (Guard (fun c op => ok c op = true) Step) c ops c' := by
  induction ops generalizing c with
  | nil => cases h; exact .nil _
  | cons op ops ih =>
    simp only [play] at h
    split at h
    · rename_i hop
      obtain ⟨c1, e, h1⟩ := Option.bind_eq_some_iff.mp h
      simp only [Bool.and_eq_true] at hop
      exact .cons ⟨hop.1, hop.2, e⟩ (ih h1)
    · cases h

instance (c : Client) (op : Op) : Decidable (Safe c op) := by
  cases op <;> unfold Safe <;> infer_instance

theorem play_safe {c c' : Client} {ops : List Op} (h : play (fun c op => decide (Safe c op)) c ops = some c') :
    Run (Guard Safe Step) c ops c' :=
  (play_run h).mono fun _ _ _ hs => ⟨of_decide_eq_true hs.1, hs.2⟩

theorem play_any {c c' : Client} {ops : List Op} (h : play (fun _ _ => true) c ops = some c') : Run Step c ops c' :=
  (play_run h).unguard

/-- The heap of the board's RAM, for the concrete runs. -/
def board : Region := ⟨0x20000000, by decide, by decide⟩

/-- After any run of safe calls the blocks form a doubly linked list that tiles the heap. -/
theorem safe_run_wellFormed {m : Mem} {c c' : Client} {ops : List Op} (h : start r m = some c)
    (hr : Run (Guard Safe Step) c ops c') : ∃ bs, WellFormed r c'.heap bs := by
  obtain ⟨bs, hi⟩ := run_inv h hr
  exact ⟨bs, hi.wellFormed⟩

theorem safe_run_wellFormed_board : ∃ c c', start board (fun _ => 0) = some c ∧
    Run (Guard Safe Step) c [.malloc 16, .malloc 8, .realloc 0x20000010 40, .free 0x20000030, .malloc 30] c' ∧
    ∃ bs, WellFormed board c'.heap bs := by
  have e : ((start board fun _ => 0).bind fun c => play (fun c op => decide (Safe c op)) c
      [.malloc 16, .malloc 8, .realloc 0x20000010 40, .free 0x20000030, .malloc 30]).isSome = true := by
    decide +kernel
  obtain ⟨c', e⟩ := Option.isSome_iff_exists.mp e
  obtain ⟨c, h, e⟩ := Option.bind_eq_some_iff.mp e
  exact ⟨c, c', h, play_safe e, safe_run_wellFormed h (play_safe e)⟩

/-- In a well-formed list a block with a successor is the `prev` of that successor. -/
theorem WellFormed.next_mem (hw : WellFormed r h bs) {b : Block} (hb : b ∈ bs) (hn : load32 h.mem (b.addr + 4) ≠ 0) :
    ∃ c ∈ bs, c.addr = load32 h.mem (b.addr + 4) ∧ load32 h.mem c.addr = b.addr := by
  obtain ⟨pre, post, rfl⟩ := List.append_of_mem hb
  have hf := (fwd_right hw.linked.fwd).1.1
  cases post with
  | nil => exact absurd hf hn
  | cons c post =>
    have hk := (back_append.mp hw.linked.back).2
    exact ⟨c, by simp, hf.symm, hk.2.1⟩

/-- Cutting a freed block in front of another one leaves that one's `prev` behind. -/
theorem cut_breaks_list : ∃ c c', start board (fun _ => 0) = some c ∧
    Run Step c [.malloc 64, .malloc 16, .free 0x20000010, .malloc 8] c' ∧ ¬ ∃ bs, WellFormed board c'.heap bs := by
  have e : ((start board fun _ => 0).bind fun c => (play (fun _ _ => true) c
      [.malloc 64, .malloc 16, .free 0x20000010, .malloc 8]).filter fun c' =>
        load32 c'.heap.mem 0x20000004 == 0x20000018 && load32 c'.heap.mem 0x2000001c == 0x20000050 &&
          load32 c'.heap.mem 0x20000050 == 0x20000000).isSome = true := by
    decide +kernel
  obtain ⟨c', e⟩ := Option.isSome_iff_exists.mp e
  obtain ⟨c, h, e⟩ := Option.bind_eq_some_iff.mp e
  obtain ⟨e, hv⟩ := Option.filter_eq_some_iff.mp e
  simp only [Bool.and_eq_true, beq_iff_eq] at hv
  refine ⟨c, c', h, play_any e, fun ⟨bs, hw⟩ => ?_⟩
  obtain ⟨b, hb, hba⟩ : ∃ b ∈ bs, b.addr = 0x20000000 := by
    obtain ⟨b, bs', rfl⟩ := List.exists_cons_of_ne_nil hw.ne
    exact ⟨b, by simp, hw.linked.tiles.1⟩
  obtain ⟨d, hd, hda, -⟩ := hw.next_mem hb (by rw [hba, hv.1.1]; decide)
  rw [hba, hv.1.1] at hda
  obtain ⟨f, -, hfa, hfp⟩ := hw.next_mem hd (by rw [hda, hv.1.2]; decide)
  rw [hda, hv.1.2] at hfa
  rw [hfa, hv.2, hda] at hfp
  cases hfp

/-- A call of `malloc`, `free` or `realloc` in a state that safe calls reached returns. -/
theorem safe_call_returns {m : Mem} {c c' : Client} {ops : List Op} {op : Op} (h : start r m = some c)
    (hr : Run (Guard Safe Step) c ops c') (ha : allowed c' op = true) (hs : Safe c' op) : (call c' op).isSome := by
  obtain ⟨c1, e, -⟩ := call_inv (run_inv h hr) ha hs
  simp [e]

/-! ## Payloads -/

/-- From `c` to `c'` no byte changed of a payload that is live before and after, and no
    header field was read from a live payload. -/
def KeepsPayloads (c c' : Client) : Prop :=
  (∀ a ∈ c.live, a ∈ c'.live → ∀ i, a.1 ≤ i → i < a.1 + a.2 → c'.heap.mem i = c.heap.mem i) ∧
  ∀ x ∈ c'.heap.reads, ∀ i, x.1 ≤ i → i < x.1 + x.2 → ∀ a ∈ c.live, ¬ (a.1 ≤ i ∧ i < a.1 + a.2)

/-- A byte of a live payload is in no header, before or after a call that keeps the blocks
    in use. -/
theorem payload_apart {bs' : List Block} {hi : Nat} (hv : Inv r h live bs) (ht : Tiles 16 r.lo bs' hi)
    (hsub : ∀ b ∈ inUse bs, b ∈ bs') {a : Nat × Nat} (ha : a ∈ live) {i : Nat} (h1 : a.1 ≤ i) (h2 : i < a.1 + a.2) :
    ¬ InHeader (bs ++ bs') i := by
  obtain ⟨b, hb, hu, rfl⟩ := mem_payload.mp ((hv.live a).mp ha)
  rintro ⟨x, hx, hx1, hx2⟩
  have hin : b.addr + 16 ≤ i ∧ i < b.stop 16 := by unfold Block.stop; simp only at h1 h2; omega
  rcases List.mem_append.mp hx with hx | hx
  · exact header_apart 16 hv.linked.tiles hx hb hx1 hx2 hin
  · exact header_apart 16 ht hx (hsub b (mem_inUse.mpr ⟨hb, hu⟩)) hx1 hx2 hin

theorem edits_keepsPayloads {c c' : Client} {bs' : List Block} (hr : c.heap.reads = [])
    (hp : ∀ a ∈ c.live, ∀ i, a.1 ≤ i → i < a.1 + a.2 → ¬ InHeader bs' i) (hed : Edits bs' c.heap c'.heap) :
    KeepsPayloads c c' := by
  refine ⟨fun a ha _ i h1 h2 => hed.mem i (hp a ha i h1 h2), fun x hx i h1 h2 a ha hin => ?_⟩
  obtain ⟨rs, e, hrs⟩ := hed.reads
  rw [e, hr, List.append_nil] at hx
  exact hp a ha i hin.1 hin.2 (hrs x hx i h1 h2)

/-- One safe `malloc` or `free`. -/
theorem call_keepsPayloads {c c' : Client} {op : Op} (hi : c.Ok r) (ha : allowed c op = true) (hs : Safe c op)
    (hop : (∃ size, op = .malloc size) ∨ ∃ ptr, op = .free ptr) (e : call c op = some c') : KeepsPayloads c c' := by
  obtain ⟨bs, hi⟩ := hi
  have hf := hi.setReads []
  have key : ∀ {c' : Client} {bs' : List Block}, (∀ a ∈ c.live, ∀ i, a.1 ≤ i → i < a.1 + a.2 → ¬ InHeader bs' i) →
      Edits bs' { c.heap with reads := [] } c'.heap → KeepsPayloads c c' := fun hp hed =>
    edits_keepsPayloads (c := ⟨{ c.heap with reads := [] }, c.live⟩) rfl hp hed
  rcases hop with ⟨size, rfl⟩ | ⟨ptr, rfl⟩
  · obtain ⟨p, h', bs', -, e1, hi', hed, hsub, -⟩ := malloc_inv size hf (cutsLast_spec hi hs)
    obtain rfl : ⟨h', grant c.live p h'⟩ = c' := by simpa [call, e1] using e
    exact key (fun a ha i h1 h2 => payload_apart hi hi'.linked.tiles hsub ha h1 h2) hed
  · by_cases h0 : ptr = 0
    · obtain rfl : ⟨{ c.heap with reads := [] }, c.live.filter (·.1 != ptr)⟩ = c' := by
        simpa [call, free, h0] using e
      exact key (fun a ha i h1 h2 hin => by simp [InHeader] at hin) (Edits.refl [] _)
    · obtain ⟨a, hal, rfl⟩ : ∃ a ∈ c.live, a.1 = ptr := by simpa [allowed, h0, Client.isLive] using ha
      obtain ⟨h', bs', e1, hi', hed⟩ := free_inv hf hal
      obtain rfl : ⟨h', c.live.filter (·.1 != a.1)⟩ = c' := by simpa [call, e1] using e
      refine key (fun x hx i h1 h2 hin => ?_) hed
      exact payload_apart hi hi.linked.tiles (fun b hb => (mem_inUse.mp hb).1) hx h1 h2 (by simpa [InHeader] using hin)

/-- No `malloc` or `free` in a run of safe calls and client writes touches a live payload. -/
theorem safe_run_payloads {m : Mem} {c c1 c2 : Client} {ops : List Op} {op : Op} (h : start r m = some c)
    (hr : Run (Guard Safe Step) c ops c1) (hs : Guard Safe Step c1 op c2)
    (hop : (∃ size, op = .malloc size) ∨ ∃ ptr, op = .free ptr) : KeepsPayloads c1 c2 :=
  call_keepsPayloads (run_inv h hr) hs.2.1 hs.1 hop hs.2.2

theorem safe_run_payloads_board : ∃ c c1 c2, start board (fun _ => 0) = some c ∧
    Run (Guard Safe Step) c [.malloc 16, .malloc 8, .write 0x20000031 7] c1 ∧
    Guard Safe Step c1 (.free 0x20000010) c2 ∧ KeepsPayloads c1 c2 := by
  have e : ((start board fun _ => 0).bind fun c => (play (fun c op => decide (Safe c op)) c
      [.malloc 16, .malloc 8, .write 0x20000031 7]).bind fun c1 =>
        play (fun c op => decide (Safe c op)) c1 [.free 0x20000010]).isSome = true := by
    decide +kernel
  obtain ⟨c2, e⟩ := Option.isSome_iff_exists.mp e
  obtain ⟨c, h, e⟩ := Option.bind_eq_some_iff.mp e
  obtain ⟨c1, e1, e⟩ := Option.bind_eq_some_iff.mp e
  cases play_safe e with
  | cons hs hn =>
    cases hn
    exact ⟨c, c1, c2, h, play_safe e1, hs, safe_run_payloads h (play_safe e1) hs (Or.inr ⟨_, rfl⟩)⟩

/-- The stale `prev` of one block comes to point into the payload of another: its `free`
    reads a header there and writes the client's bytes. -/
theorem free_writes_payload : ∃ c c1 c2, start board (fun _ => 0) = some c ∧
    Run Step c [.malloc 16, .malloc 64, .malloc 16, .free 0x20000030, .malloc 8, .malloc 40, .free 0x20000030,
      .free 0x20000010, .malloc 40, .write 0x20000024 0x70] c1 ∧
    Step c1 (.free 0x20000080) c2 ∧ ¬ KeepsPayloads c1 c2 := by
  have e : ((start board fun _ => 0).bind fun c => (play (fun _ _ => true) c
      [.malloc 16, .malloc 64, .malloc 16, .free 0x20000030, .malloc 8, .malloc 40, .free 0x20000030,
        .free 0x20000010, .malloc 40, .write 0x20000024 0x70]).bind fun c1 =>
          (play (fun _ _ => true) c1 [.free 0x20000080]).filter fun c2 =>
            c1.live.contains (0x20000010, 40) && c2.live.contains (0x20000010, 40) &&
              c1.heap.mem 0x20000024 == 0x70 && c2.heap.mem 0x20000024 == 0).isSome = true := by
    decide +kernel
  obtain ⟨c2, e⟩ := Option.isSome_iff_exists.mp e
  obtain ⟨c, h, e⟩ := Option.bind_eq_some_iff.mp e
  obtain ⟨c1, e1, e⟩ := Option.bind_eq_some_iff.mp e
  obtain ⟨e, hv⟩ := Option.filter_eq_some_iff.mp e
  simp only [Bool.and_eq_true, beq_iff_eq, List.contains_iff_mem] at hv
  cases play_any e with
  | cons hs hn =>
    cases hn
    refine ⟨c, c1, c2, h, play_any e1, hs, fun hk => ?_⟩
    have := hk.1 _ hv.1.1.1 hv.1.1.2 0x20000024 (by decide) (by decide)
    rw [hv.2, hv.1.2] at this
    cases this

/-! ## When everything is freed -/

/-- The heap as `init_malloc` builds it: one free block. -/
def Pristine (r : Region) (h : St) : Prop :=
  h.head = r.lo ∧ Linked r.lo r.heapEnd h.mem [⟨r.lo, r.heapSize - 16, false⟩]

theorem Inv.pristine (hi : Inv r h [] bs) : Pristine r h := by
  have hfree : ∀ b ∈ bs, b.used = false := by
    intro b hb
    cases hu : b.used with
    | false => rfl
    | true =>
      have := (hi.live _).mpr (mem_payload.mpr ⟨b, hb, hu, rfl⟩)
      cases this
  have hlen := packed_all_free hi.packed hfree
  obtain ⟨b, rfl⟩ : ∃ b, bs = [b] := by
    match bs, hi.ne, hlen with
    | [b], _, _ => exact ⟨b, rfl⟩
  have hb : b = ⟨r.lo, r.heapSize - 16, false⟩ := by
    have h1 := hi.linked.tiles.1
    have h2 : b.addr + 16 + b.size = r.heapEnd := hi.linked.tiles.2
    have h3 := hfree b (by simp)
    have h4 := r.size_eq
    cases b
    simp only [Block.mk.injEq] at *
    exact ⟨h1, by omega, h3⟩
  exact ⟨hi.head, by rw [← hb]; exact hi.linked⟩

/-- A run of safe calls that has freed everything ends with the heap `init_malloc` built. -/
theorem safe_run_defragments {m : Mem} {c c' : Client} {ops : List Op} (h : start r m = some c)
    (hr : Run (Guard Safe Step) c ops c') (hl : c'.live = []) : Pristine r c'.heap := by
  obtain ⟨bs, hi⟩ := run_inv h hr
  rw [hl] at hi
  exact hi.pristine

theorem safe_run_defragments_board : ∃ c c', start board (fun _ => 0) = some c ∧
    Run (Guard Safe Step) c [.malloc 16, .malloc 8, .free 0x20000010, .free 0x20000030] c' ∧ c'.live = [] ∧
    Pristine board c'.heap := by
  have e : ((start board fun _ => 0).bind fun c => (play (fun c op => decide (Safe c op)) c
      [.malloc 16, .malloc 8, .free 0x20000010, .free 0x20000030]).filter fun c' => c'.live.isEmpty).isSome = true := by
    decide +kernel
  obtain ⟨c', e⟩ := Option.isSome_iff_exists.mp e
  obtain ⟨c, h, e⟩ := Option.bind_eq_some_iff.mp e
  obtain ⟨e, hv⟩ := Option.filter_eq_some_iff.mp e
  have hl := List.isEmpty_iff.mp hv
  exact ⟨c, c', h, play_safe e, hl, safe_run_defragments h (play_safe e) hl⟩

/-- Two adjacent free blocks stay when the one in front was cut. -/
theorem cut_fragments : ∃ c c', start board (fun _ => 0) = some c ∧
    Run Step c [.malloc 64, .malloc 16, .free 0x20000010, .malloc 8, .free 0x20000060, .free 0x20000010] c' ∧
    c'.live = [] ∧ ¬ Pristine board c'.heap := by
  have e : ((start board fun _ => 0).bind fun c => (play (fun _ _ => true) c
      [.malloc 64, .malloc 16, .free 0x20000010, .malloc 8, .free 0x20000060, .free 0x20000010]).filter fun c' =>
        c'.live.isEmpty && load32 c'.heap.mem 0x20000004 == 0x20000050).isSome = true := by
    decide +kernel
  obtain ⟨c', e⟩ := Option.isSome_iff_exists.mp e
  obtain ⟨c, h, e⟩ := Option.bind_eq_some_iff.mp e
  obtain ⟨e, hv⟩ := Option.filter_eq_some_iff.mp e
  simp only [Bool.and_eq_true, beq_iff_eq, List.isEmpty_iff] at hv
  refine ⟨c, c', h, play_any e, hv.1, fun hp => ?_⟩
  have hn : load32 c'.heap.mem (0x20000000 + 4) = 0 := hp.2.fwd.1.1
  rw [hv.2] at hn
  cases hn

end OpenGpos.Libc.Heap
