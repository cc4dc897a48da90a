/-
  OpenGpos.Libc.HeapCalls — what one call of `malloc`, `free` and `realloc` does, from any heap
  of the kind the call needs. `malloc` needs the forward links only (`malloc_first_fit`);
  `free` of a well-formed heap coalesces (`free_coalesces`). `realloc` is a `malloc`, a
  copy and a `free`: the cut that its `malloc` may make leaves the `prev` of one block
  naming the block in use in front of the leftover, and `free` of such a block joins nothing
  in front (`Named`, `malloc_named`), so it moves the data from every well-formed heap
  (`realloc_moves`).
-/
import OpenGpos.Libc.HeapInv

namespace OpenGpos.Libc.Heap

open OpenGpos.Lib.Bytes OpenGpos.Lib.Tiling

/-- The forward chain from `head` tiles the heap. -/
structure Tiled (r : Region) (h : St) (bs : List Block) : Prop where
  head : h.head = r.lo
  chain : Chained r.lo r.heapEnd h.mem bs

def Aligned (bs : List Block) : Prop := ∀ b ∈ bs, b.addr % 4 = 0

variable {r : Region} {h h' : St} {live : List (Nat × Nat)} {bs pre post : List Block} {b : Block}

theorem Inv.tiled (hi : Inv r h live bs) : Tiled r h bs := ⟨hi.head, hi.linked.chained⟩

theorem Tiled.ne (ht : Tiled r h bs) : bs ≠ [] := by
  rintro rfl
  have h1 : r.lo = r.heapEnd := ht.chain.tiles
  have h2 := r.size_eq
  omega

/-- A byte of one block's payload is in no header and in no other block's payload. -/
theorem Chained.payload_alone {lo hi : Nat} {m : Mem} (hc : Chained lo hi m bs) (hb : b ∈ bs) {i : Nat}
    (h1 : b.addr + 16 ≤ i) (h2 : i < b.addr + 16 + b.size) :
    ¬ InHeader bs i ∧ ∀ c ∈ bs, c ≠ b → ¬ (c.addr + 16 ≤ i ∧ i < c.addr + 16 + c.size) := by
  constructor
  · rintro ⟨x, hx, hx1, hx2⟩
    exact header_apart 16 hc.tiles hx hb hx1 hx2 ⟨h1, h2⟩
  intro c hcm hne hin
  rcases tiles_apart 16 hc.tiles hcm hb with e | e | e
  · exact hne e
  · unfold Block.stop at e
    omega
  · unfold Block.stop at e
    omega

/-! ## malloc -/

/-- How `malloc` hands out `m` bytes of `b`, with `post` behind it: the whole block, or its first
    `m` bytes with the rest a free block right behind, which takes in a free successor. -/
inductive HandsOut (m : Nat) (b : Block) (post : List Block) : Block → List Block → Prop
  | whole : HandsOut m b post { b with used := true } post
  | cut {rest : Block} : rest.used = false → rest.addr = b.addr + 16 + m → rest.stop 16 = b.stop 16 →
      (∀ c ∈ post.head?, c.used = true) → HandsOut m b post { b with size := m, used := true } (rest :: post)
  | cutInto {rest c : Block} {tl : List Block} : rest.used = false → rest.addr = b.addr + 16 + m → post = c :: tl →
      c.used = false → rest.stop 16 = c.stop 16 → HandsOut m b post { b with size := m, used := true } (rest :: tl)

theorem HandsOut.got {m : Nat} {got : Block} {rest : List Block} (h : HandsOut m b post got rest) (hm : m ≤ b.size) :
    got.addr = b.addr ∧ got.used = true ∧ m ≤ got.size := by
  cases h with
  | whole => exact ⟨rfl, rfl, hm⟩
  | cut => exact ⟨rfl, rfl, Nat.le_refl m⟩
  | cutInto => exact ⟨rfl, rfl, Nat.le_refl m⟩

theorem carve_handsOut {m hi : Nat} (ht : Tiles 16 (b.stop 16) post hi) :
    ∃ got rest, carve 16 4 m b post = got :: rest ∧ HandsOut m b post got rest := by
  by_cases hs : m + 16 + 4 < b.size
  · rw [carve, if_pos hs]
    have hstop : Block.stop 16 ⟨b.addr + 16 + m, b.size - m - 16, false⟩ = b.stop 16 := by
      unfold Block.stop
      simp only
      omega
    cases post with
    | nil => exact ⟨_, _, rfl, .cut rfl rfl hstop (by simp)⟩
    | cons c tl =>
      by_cases hu : c.used = true
      · refine ⟨_, _, by rw [absorb, if_pos hu], .cut rfl rfl hstop (by simpa using hu)⟩
      · refine ⟨_, _, by rw [absorb, if_neg hu], .cutInto rfl rfl rfl (by simpa using hu) ?_⟩
        have hc := ht.1
        unfold Block.stop at hc hstop ⊢
        simp only at hstop ⊢
        omega
  · rw [carve, if_neg hs]
    exact ⟨_, _, rfl, .whole⟩

theorem HandsOut.aligned {m : Nat} {got : Block} {rest : List Block} (h : HandsOut m b post got rest) (hm : m % 4 = 0)
    (ha : Aligned (pre ++ b :: post)) : Aligned (pre ++ got :: rest) := by
  have hb : b.addr % 4 = 0 := ha b (by simp)
  have hpre : ∀ x ∈ pre, x.addr % 4 = 0 := fun x hx => ha x (by simp [hx])
  have hpost : ∀ x ∈ post, x.addr % 4 = 0 := fun x hx => ha x (by simp [hx])
  intro x hx
  rcases List.mem_append.mp hx with hx | hx
  · exact hpre x hx
  cases h with
  | whole =>
    rcases List.mem_cons.mp hx with rfl | hx
    · exact hb
    · exact hpost x hx
  | cut _ hrest =>
    rcases List.mem_cons.mp hx with rfl | hx
    · exact hb
    rcases List.mem_cons.mp hx with rfl | hx
    · omega
    · exact hpost x hx
  | cutInto _ hrest hp =>
    rcases List.mem_cons.mp hx with rfl | hx
    · exact hb
    rcases List.mem_cons.mp hx with rfl | hx
    · omega
    · exact hpost x (by simp [hp, hx])

/-- `malloc(n)` on the block list `bs`: NULL and no change when no free block holds `n` bytes
    rounded up to a multiple of 4; otherwise the first block that does, taken out of the list. -/
def FirstFit (r : Region) (h : St) (bs : List Block) (n : UInt32) : Prop :=
  let m := (n.toNat + 3) / 4 * 4
  ((∀ b ∈ bs, ¬ (b.used = false ∧ m ≤ b.size)) ∧
    ∃ h', malloc n h = some (0, h') ∧ h'.mem = h.mem ∧ h'.head = h.head) ∨
  ∃ pre b post got rest h', bs = pre ++ b :: post ∧ (∀ p ∈ pre, ¬ (p.used = false ∧ m ≤ p.size)) ∧
    (b.used = false ∧ m ≤ b.size) ∧ malloc n h = some (b.addr + 16, h') ∧ HandsOut m b post got rest ∧
    (got.addr = b.addr ∧ got.used = true ∧ m ≤ got.size) ∧ Tiled r h' (pre ++ got :: rest) ∧
    Aligned (pre ++ got :: rest) ∧ ∀ i, b.addr + 16 ≤ i → i < b.addr + 16 + got.size →
      ¬ InHeader (pre ++ got :: rest) i ∧
      ∀ c ∈ pre ++ got :: rest, c.used = true → c ≠ got → ¬ (c.addr + 16 ≤ i ∧ i < c.addr + 16 + c.size)

theorem fits_iff {n : Nat} : fits n b = true ↔ b.used = false ∧ n ≤ b.size := by
  simp [fits]

theorem align4_eq {n : Nat} (h : n ≤ 2 ^ 32 - 4) : align4 n = (n + 3) / 4 * 4 := by
  rw [align4, u32_of_lt (by omega)]

/-- From every heap whose forward chain tiles it, `malloc` is first fit. -/
theorem malloc_first_fit (ht : Tiled r h bs) (ha : Aligned bs) (n : UInt32) (hn : n.toNat ≤ 2 ^ 32 - 4) :
    FirstFit r h bs n := by
  obtain ⟨-, -, hlt, hpos⟩ := r.size_eq
  have hlo := r.lo_le
  have hend : r.heapEnd = r.heapStart + 0x8000 := rfl
  have hm := align4_eq hn
  have hnot : ∀ {p : Block}, fits (align4 n.toNat) p = false → ¬ (p.used = false ∧ (n.toNat + 3) / 4 * 4 ≤ p.size) := by
    intro p hp hc
    rw [← hm, ← fits_iff, hp] at hc
    cases hc
  rcases malloc_spec n h ht.chain.tiles ht.chain.fwd ht.ne ht.head hpos hlt (by omega) with
    ⟨hno, h', e, hmem, hed⟩ | ⟨pre, b, post, h', rfl, hp, hb, e, hf, -, hed, -, -⟩
  · exact Or.inl ⟨fun b hb => hnot (hno b hb), h', e, hmem, hed.head⟩
  obtain ⟨htp, htb⟩ := (tiles_mid 16).mp ht.chain.tiles
  obtain ⟨got, rest, hc, hout⟩ := carve_handsOut (m := align4 n.toNat) htb
  have htiles : Tiles 16 r.lo (pre ++ got :: rest) r.heapEnd := by
    rw [← hc]
    exact (tiles_append 16).mpr ⟨b.addr, htp, tiles_carve 16 htb⟩
  rw [hc] at hf
  rw [fits_iff] at hb
  have hgot := hout.got hb.2
  have halign := hout.aligned (by rw [hm]; omega) ha
  rw [hm] at hb hout hgot
  refine Or.inr ⟨pre, b, post, got, rest, h', rfl, fun p h => hnot (hp p h), hb, e, hout, hgot,
    ⟨hed.head.trans ht.head, htiles, hf⟩, halign, fun i h1 h2 => ?_⟩
  rw [← hgot.1] at h1 h2
  obtain ⟨hhead, hothers⟩ := Chained.payload_alone ⟨htiles, hf⟩ (b := got) (by simp) h1 h2
  exact ⟨hhead, fun c hcm _ => hothers c hcm⟩

/-- The heap that `init_malloc` builds. -/
theorem initMalloc_tiled (m : Mem) : ∃ h, initMalloc r ⟨m, 0, []⟩ = some ((), h) ∧
    Tiled r h [⟨r.lo, r.heapSize - 16, false⟩] ∧ Aligned [⟨r.lo, r.heapSize - 16, false⟩] := by
  obtain ⟨h, e, hi⟩ := init_inv (r := r) ⟨m, 0, []⟩
  refine ⟨h, e, hi.tiled, fun b hb => ?_⟩
  rw [List.mem_singleton.mp hb]
  exact Nat.mul_mod_left _ _

/-! ### Concrete heaps -/

/-- The blocks along `next` from `p` on, at most as many as the fuel. -/
def walk (m : Mem) : Nat → Nat → Option (List Block)
  | 0, _ => none
  | k + 1, p =>
    let b : Block := ⟨p, load32 m (p + 8), m (p + 12) != 0⟩
    if load32 m (p + 4) = 0 then some [b] else (walk m k (load32 m (p + 4))).map (b :: ·)

theorem Fwd.walk {m : Mem} {l : List Block} (k : Nat) : ∀ {b : Block} {bs : List Block}, Fwd m (b :: bs) →
    (∀ c ∈ bs, c.addr ≠ 0) → walk m k b.addr = some l → l = b :: bs := by
  induction k generalizing l with
  | zero => intro b bs _ _ h; cases h
  | succ k ih =>
    intro b bs hf hnz h
    obtain ⟨⟨hnext, hsize, hused⟩, hrest⟩ := hf
    rw [Heap.walk, hnext, hsize, hused] at h
    cases bs with
    | nil =>
      rw [nextAddr, if_pos rfl] at h
      exact (Option.some.inj h).symm
    | cons c bs =>
      rw [nextAddr, if_neg (hnz c (by simp))] at h
      obtain ⟨l', h', rfl⟩ := Option.map_eq_some_iff.mp h
      rw [ih hrest (fun x hx => hnz x (by simp [hx])) h']

/-- The block list of a tiled heap is the one that is met. -/
theorem Tiled.eq_walk (ht : Tiled r h bs) {k : Nat} {l : List Block} (hl : walk h.mem k r.lo = some l) : bs = l := by
  obtain ⟨-, -, -, hpos⟩ := r.size_eq
  cases bs with
  | nil => exact absurd rfl ht.ne
  | cons b bs =>
    have hb : r.lo = b.addr := ht.chain.tiles.1.symm
    rw [hb] at hl
    refine (Fwd.walk k ht.chain.fwd (fun c hc => ?_) hl).symm
    have := (tiles_mem 16 ht.chain.tiles (List.mem_cons_of_mem b hc)).1
    omega

/-- What a run of safe calls on the board leads to. -/
theorem played_board (ops : List Op) (P : Client → Bool) (e : ((start board fun _ => 0).bind fun c =>
      (play (fun c op => decide (Safe c op)) c ops).filter P).isSome = true) :
    ∃ (c : Client) (bs : List Block), Inv board c.heap c.live bs ∧ P c = true := by
  obtain ⟨c', e⟩ := Option.isSome_iff_exists.mp e
  obtain ⟨c, h, e⟩ := Option.bind_eq_some_iff.mp e
  obtain ⟨e, hv⟩ := Option.filter_eq_some_iff.mp e
  obtain ⟨bs, hi⟩ := run_inv h (play_safe e)
  exact ⟨c', bs, hi, hv⟩

/-- The first free block is too small, the second one is cut. -/
theorem malloc_first_fit_board :
    let bs : List Block := [⟨0x20000000, 16, false⟩, ⟨0x20000020, 8, true⟩, ⟨0x20000038, 64, false⟩,
      ⟨0x20000088, 8, true⟩, ⟨0x200000A0, 0x7F50, false⟩]
    let cut : List Block := [⟨0x20000000, 16, false⟩, ⟨0x20000020, 8, true⟩, ⟨0x20000038, 20, true⟩,
      ⟨0x2000005C, 28, false⟩, ⟨0x20000088, 8, true⟩, ⟨0x200000A0, 0x7F50, false⟩]
    ∃ h h', Tiled board h bs ∧ FirstFit board h bs 20 ∧ malloc 20 h = some (0x20000048, h') ∧ Tiled board h' cut := by
  intro bs cut
  obtain ⟨c, bs0, hi, hc⟩ := played_board
      [.malloc 16, .malloc 8, .malloc 64, .malloc 8, .free 0x20000010, .free 0x20000048]
    (fun c => decide (walk c.heap.mem 9 0x20000000 = some bs ∧ ∃ q ∈ malloc 20 c.heap, q.1 = 0x20000048 ∧
      walk q.2.mem 9 0x20000000 = some cut)) (by decide +kernel)
  obtain ⟨hbs, ⟨_, h'⟩, e, rfl, hcut⟩ := of_decide_eq_true hc
  obtain rfl := hi.tiled.eq_walk hbs
  have ha : Aligned bs := by
    unfold Aligned
    decide
  have hfirst : FirstFit board c.heap bs 20 := malloc_first_fit hi.tiled ha 20 (by decide)
  refine ⟨c.heap, h', hi.tiled, hfirst, e, ?_⟩
  rcases hfirst with ⟨-, h1, e1, -⟩ | ⟨pre, b, post, got, rest, h1, -, -, -, e1, -, -, ht, -⟩
  · rw [e] at e1
    cases e1
  · obtain ⟨-, rfl⟩ := Prod.mk.inj (Option.some.inj (e.symm.trans e1))
    rwa [ht.eq_walk hcut] at ht

/-- Where `malloc` cuts, the `prev` of the leftover is the first word behind what it hands out. -/
theorem malloc_leftover (ht : Tiled r h bs) {n : UInt32} {p : Nat} (e : malloc n h = some (p, h')) :
    p = 0 ∨ ∃ pre b post, bs = pre ++ b :: post ∧ (∀ q ∈ pre, fits (align4 n.toNat) q = false) ∧
      fits (align4 n.toNat) b = true ∧
      p = b.addr + 16 ∧ (align4 n.toNat + 20 < b.size → load32 h'.mem (b.addr + 16 + align4 n.toNat) = b.addr) := by
  obtain ⟨-, -, hlt, hpos⟩ := r.size_eq
  have hlo := r.lo_le
  rcases find_spec (align4 n.toNat) h ht.chain.tiles ht.chain.fwd ht.ne ht.head hpos hlt with
    ⟨-, h1, ef, -, -⟩ | ⟨pre, b, post, h1, rfl, hp, hb, ef, hm, -⟩
  · have hnone : 0 = p ∧ h1 = h' := by simpa [malloc, ef] using e
    exact Or.inl hnone.1.symm
  obtain ⟨htp, htb⟩ := (tiles_mid 16).mp ht.chain.tiles
  have hle := tiles_le 16 htp
  have hle' := tiles_le 16 htb
  unfold Block.stop at hle'
  have hb0 : b.addr ≠ 0 := by omega
  have hret : u32 (b.addr + 16) = b.addr + 16 := u32_of_lt (by omega)
  have hfb : Fwd h1.mem (b :: post) := by rw [hm]; exact fwd_right ht.chain.fwd
  cases es : splitMemorySpace b.addr (align4 n.toNat) h1 with
  | none => simp [malloc, ef, hb0, es] at e
  | some v =>
    obtain ⟨v, h2⟩ := v
    obtain ⟨rfl, rfl⟩ : b.addr + 16 = p ∧ { h2 with mem := store8 h2.mem (b.addr + 12) 1 } = h' := by
      simpa [malloc, ef, hb0, es, hret] using e
    refine Or.inr ⟨pre, b, post, rfl, hp, hb, rfl, fun hs => ?_⟩
    obtain ⟨h3, e3, -, hprev, -⟩ := split_yes h1 ⟨rfl, htb⟩ hfb (by omega) hlt hs
    rw [es] at e3
    cases e3
    refine (load32_store8_ne (Or.inl (by omega))).trans hprev

/-! ## free -/

/-- From every well-formed heap, `free` of a live pointer makes one free block of its block and
    the free neighbours. -/
theorem free_coalesces (hi : Inv r h live bs) {a : Nat × Nat} (ha : a ∈ live) :
    ∃ pre b post bs' h', bs = pre ++ b :: post ∧ payload b = a ∧ free a.1 h = some ((), h') ∧
      Inv r h' (live.filter (·.1 != a.1)) bs' ∧ Coalesced 16 pre b post bs' ∧
      ∀ x ∈ live, x.1 ≠ a.1 → ∀ i, x.1 ≤ i → i < x.1 + x.2 → h'.mem i = h.mem i := by
  obtain ⟨pre, b, post, rfl, hu, rfl⟩ := hi.block ha
  obtain ⟨h', e, hi', hed⟩ := free_block hi hu
  obtain ⟨hp1, hp2, -, -⟩ := packed_mid.mp hi.packed
  refine ⟨pre, b, post, _, h', rfl, rfl, e, hi', joinBack_coalesced 16 hi.linked.tiles hp1 hp2, fun x hx _ i h1 h2 =>
      ?_⟩
  obtain ⟨c, hcm, -, rfl⟩ := mem_payload.mp ((hi.live x).mp hx)
  exact hed.mem i (hi.linked.chained.payload_alone hcm h1 h2).1

/-- A block with a free neighbour on either side. -/
theorem free_coalesces_board :
    let bs : List Block := [⟨0x20000000, 16, false⟩, ⟨0x20000020, 8, true⟩, ⟨0x20000038, 24, false⟩,
      ⟨0x20000060, 8, true⟩, ⟨0x20000078, 0x7F78, false⟩]
    let merged : List Block := [⟨0x20000000, 80, false⟩, ⟨0x20000060, 8, true⟩, ⟨0x20000078, 0x7F78, false⟩]
    ∃ h live h', Inv board h live bs ∧ (0x20000030, 8) ∈ live ∧ free 0x20000030 h = some ((), h') ∧
      Inv board h' (live.filter (·.1 != 0x20000030)) merged ∧
      ∃ pre b post, bs = pre ++ b :: post ∧ payload b = (0x20000030, 8) ∧ Coalesced 16 pre b post merged := by
  intro bs merged
  obtain ⟨c, bs0, hi, hc⟩ := played_board
      [.malloc 16, .malloc 8, .malloc 24, .malloc 8, .free 0x20000010, .free 0x20000048]
    (fun c => decide (walk c.heap.mem 9 0x20000000 = some bs ∧ (0x20000030, 8) ∈ c.live ∧ ∃ q ∈ free 0x20000030 c.heap,
      walk q.2.mem 9 0x20000000 = some merged)) (by decide +kernel)
  obtain ⟨hbs, hm, q, e, hmerged⟩ := of_decide_eq_true hc
  obtain rfl := hi.tiled.eq_walk hbs
  obtain ⟨pre, b, post, bs', h', hmid, hb, ef, hi', hco, -⟩ := free_coalesces hi hm
  obtain rfl := Option.some.inj (e.symm.trans ef)
  obtain rfl := hi'.tiled.eq_walk hmerged
  exact ⟨c.heap, c.live, h', hi, hm, ef, hi', pre, b, post, hmid, hb, hco⟩

/-! ## Back links that `free` can do with -/

/-- The `prev` of `b` names the block in front of it (NULL for the first one), or some block in
    use in front of it. -/
def Named (m : Mem) (pre : List Block) (b : Block) : Prop :=
  load32 m b.addr = lastAddr 0 pre ∨ ∃ c ∈ pre, c.used = true ∧ load32 m b.addr = c.addr

theorem lastAddr_mid (p : Nat) (pre t : List Block) (b : Block) : lastAddr p (pre ++ b :: t) = lastAddr b.addr t := by
  induction pre generalizing p with
  | nil => rfl
  | cons q pre ih => exact ih q.addr

theorem Linked.named {lo hi : Nat} {m : Mem} (hl : Linked lo hi m (pre ++ b :: post)) : Named m pre b :=
  Or.inl (back_append.mp hl.back).2.1

/-- Such a block can be freed: the list stays a chain, and only its block is no longer in use. -/
theorem free_named {lo hi : Nat} (hc : Chained lo hi h.mem (pre ++ b :: post)) (hn : Named h.mem pre b) (hpos : 0 < lo)
    (hhi : hi < 2 ^ 32) : ∃ h' bs', free (b.addr + 16) h = some ((), h') ∧ Chained lo hi h'.mem bs' ∧
      inUse bs' = inUse pre ++ inUse post ∧ Edits (pre ++ b :: post) h h' := by
  have alone : load32 h.mem b.addr = 0 ∨ (∃ c ∈ pre, c.used = true ∧ load32 h.mem b.addr = c.addr) →
      ∃ h' bs', free (b.addr + 16) h = some ((), h') ∧ Chained lo hi h'.mem bs' ∧
        inUse bs' = inUse pre ++ inUse post ∧ Edits (pre ++ b :: post) h h' := by
    intro hp
    obtain ⟨h', e, hc', -, hed⟩ := free_alone h hc hpos hhi hp
    exact ⟨h', _, e, hc', by rw [inUse_append, inUse_absorb 16 rfl], hed⟩
  rcases hn with hn | hn
  · rcases List.eq_nil_or_concat' pre with rfl | ⟨l, p, rfl⟩
    · exact alone (Or.inl hn)
    rw [lastAddr_snoc] at hn
    by_cases hu : p.used = true
    · exact alone (Or.inr ⟨p, by simp, hu, hn⟩)
    · have hu' : p.used = false := by simpa using hu
      obtain ⟨h', e, hc', -, hed⟩ := free_joins (r := []) h hc hpos hhi rfl hu' hn
      refine ⟨h', _, e, hc', ?_, hed⟩
      rw [List.nil_append, inUse_append, inUse_absorb 16 hu', inUse_absorb 16 rfl, inUse_append, inUse_cons_free hu']
      simp [inUse]
  · exact alone (Or.inr hn)

/-- What `malloc` takes from the list leaves the other blocks in use with a `prev` of that kind. -/
theorem malloc_named {lo hi n : Nat} {m m' : Mem} {d : Block} {post' pre' : List Block}
    (hc : Chained lo hi m (pre ++ b :: post)) (hb : b.used = false) (hd : d.used = true)
    (hl : pre ++ b :: post = pre' ++ d :: post') (hlow : SameOn 0 (b.addr + 4) m m') (hrel : RelinkedBy m m' n b post)
    (hn : Named m pre' d) : ∃ P Q, pre ++ carve 16 4 n b post = P ++ d :: Q ∧ Named m' P d := by
  have hne : b ≠ d := by
    rintro rfl
    rw [hb] at hd
    cases hd
  rcases mid_or_mid hne hl with ⟨t, rfl, rfl⟩ | ⟨t, rfl, rfl⟩
  · -- in front of the block that is taken nothing changes
    refine ⟨pre', t ++ carve 16 4 n b post, by simp, ?_⟩
    have hda := (tiles_mem 16 ((tiles_mid 16).mp hc.tiles).1 (b := d) (by simp)).2
    unfold Block.stop at hda
    have hsame : load32 m' d.addr = load32 m d.addr := load32_congr (hlow.mono (Nat.zero_le _) (by omega))
    rw [Named, hsame]
    exact hn
  -- a block in use keeps being in front
  have hused : ∀ {P : List Block}, (∀ c ∈ pre, c ∈ P) → (∀ c ∈ t, c.used = true → c ∈ P) →
      (∃ c ∈ pre ++ b :: t, c.used = true ∧ load32 m d.addr = c.addr) → ∃ c ∈ P, c.used = true ∧ load32 m d.addr =
      c.addr := by
    rintro P h1 h2 ⟨c, hcm, hu, hp⟩
    rcases List.mem_append.mp hcm with hcm | hcm
    · exact ⟨c, h1 c hcm, hu, hp⟩
    rcases List.mem_cons.mp hcm with rfl | hcm
    · rw [hb] at hu
      cases hu
    · exact ⟨c, h2 c hcm hu, hu, hp⟩
  rw [Named, lastAddr_mid] at hn
  by_cases hs : n + 16 + 4 < b.size
  case neg =>
    rw [RelinkedBy, if_neg hs] at hrel
    refine ⟨pre ++ { b with used := true } :: t, post', by rw [carve, if_neg hs]; simp, ?_⟩
    rw [Named, lastAddr_mid, hrel d (by simp)]
    exact hn.imp_right (hused (fun c hcm => by simp [hcm]) fun c hcm _ => by simp [hcm])
  rw [RelinkedBy, if_pos hs] at hrel
  rw [carve, if_pos hs]
  let got : Block := { b with size := n, used := true }
  let rest : Block := ⟨b.addr + 16 + n, b.size - n - 16, false⟩
  by_cases hu : ∃ c tl, t = c :: tl ∧ c.used = false
  · -- the leftover takes in `c`
    obtain ⟨c, tl, rfl, hcu⟩ := hu
    refine ⟨pre ++ got :: { rest with size := rest.size + 16 + c.size } :: tl, post', ?_, ?_⟩
    · simp [absorb, hcu, got, rest]
    cases tl with
    | nil =>
      refine Or.inl ?_
      rw [hrel.behind rfl hcu, lastAddr_mid]
      rfl
    | cons x tl =>
      have hkept := hrel.kept (t := c :: x :: tl) rfl hd (fun _ h => by simp at h)
      rw [Named, hkept, lastAddr_mid]
      refine hn.imp_right (hused (fun c hcm => by simp [hcm]) fun y hy huy => ?_)
      rcases List.mem_cons.mp hy with rfl | hy
      · rw [hcu] at huy
        cases huy
      · simp only [List.mem_append, List.mem_cons] at hy ⊢
        tauto
  · have hkept : load32 m' d.addr = load32 m d.addr := hrel.kept rfl hd fun c ht => by
      by_contra hcu
      exact hu ⟨c, [], ht, by simpa using hcu⟩
    refine ⟨pre ++ got :: rest :: t, post', ?_, ?_⟩
    · cases t with
      | nil => simp [absorb, hd, got, rest]
      | cons c tl =>
        have hcu : c.used = true := by
          by_contra hcu
          exact hu ⟨c, tl, rfl, by simpa using hcu⟩
        simp [absorb, hcu, got, rest]
    rw [Named, hkept]
    rcases hn with hn | hn
    · cases t with
      | nil => exact Or.inr ⟨got, by simp, rfl, hn⟩
      | cons c tl =>
        rw [lastAddr_mid]
        exact Or.inl hn
    · refine Or.inr (hused (fun c hcm => by simp [hcm]) (fun c hcm _ => ?_) hn)
      simp [hcm]

/-- `malloc` took `got`, of `m` bytes or more, out of the list `bs`. -/
structure Given (r : Region) (h h' : St) (bs : List Block) (m : Nat) (got : Block) (bs' : List Block) : Prop where
  tiled : Tiled r h' bs'
  room : m ≤ got.size
  taken : ∃ b ∈ bs, b.used = false ∧ m ≤ b.size ∧ b.addr = got.addr
  blocks : ∀ x, x ∈ inUse bs' ↔ x = got ∨ x ∈ inUse bs
  apart : ∀ x ∈ inUse bs, x.addr ≠ got.addr
  edits : Edits (bs ++ bs') h h'
  named : ∀ {pre post : List Block} {d : Block}, bs = pre ++ d :: post → d.used = true → Named h.mem pre d →
    ∃ P Q, bs' = P ++ d :: Q ∧ Named h'.mem P d

theorem malloc_tiled (ht : Tiled r h bs) (n : UInt32) :
    ((∀ b ∈ bs, fits (align4 n.toNat) b = false) ∧
      ∃ h', malloc n h = some (0, h') ∧ h'.mem = h.mem ∧ h'.head = h.head) ∨
    ∃ got h' bs', malloc n h = some (got.addr + 16, h') ∧ Given r h h' bs (align4 n.toNat) got bs' := by
  obtain ⟨-, -, hlt, hpos⟩ := r.size_eq
  have hlo := r.lo_le
  have hend : r.heapEnd = r.heapStart + 0x8000 := rfl
  rcases malloc_spec n h ht.chain.tiles ht.chain.fwd ht.ne ht.head hpos hlt (by omega) with
    ⟨hno, h', e, hmem, hed⟩ | ⟨pre, b, post, h', rfl, -, hb, e, hf, -, hed, hlow, hrel⟩
  · exact Or.inl ⟨hno, h', e, hmem, hed.head⟩
  rw [fits_iff] at hb
  obtain ⟨htp, htb⟩ := (tiles_mid 16).mp ht.chain.tiles
  obtain ⟨haddr, -, hsize⟩ := handed_spec 16 4 hb.2
  refine Or.inr ⟨handed 16 4 (align4 n.toNat) b, h', _, by rw [haddr]; exact e,
    ⟨hed.head.trans ht.head, (tiles_append 16).mpr ⟨b.addr, htp, tiles_carve 16 htb⟩, hf⟩, hsize,
    ⟨b, by simp, hb.1, hb.2, haddr.symm⟩, fun x => ?_, fun x hx => ?_, hed, fun hl hd hn =>
      malloc_named ht.chain hb.1 hd hl hlow hrel hn⟩
  · rw [inUse_append, inUse_carve, inUse_append, inUse_cons_free hb.1]
    simp only [List.mem_append, List.mem_cons]
    tauto
  · obtain ⟨hxm, hxu⟩ := mem_inUse.mp hx
    rw [haddr]
    intro he
    rw [tiles_unique 16 (by omega) ht.chain.tiles hxm (by simp) he, hb.1] at hxu
    cases hxu

/-! ## realloc -/

/-- A `realloc` to `n` bytes moved the live allocation `a` to `q`, in a block of `s` bytes. -/
structure Moved (r : Region) (h h' : St) (live : List (Nat × Nat)) (a : Nat × Nat) (n q s : Nat) (bs' : List Block) : Prop where
  tiled : Tiled r h' bs'
  room : n ≤ s
  blocks : ∀ x, x ∈ (inUse bs').map payload ↔ x = (q, s) ∨ x ∈ live ∧ x.1 ≠ a.1
  gone : ∀ x ∈ (inUse bs').map payload, x.1 ≠ a.1
  apart : ∀ x ∈ live, x.1 + x.2 ≤ q ∨ q + s ≤ x.1
  data : ∀ i < Min.min a.2 n, h'.mem (q + i) = h.mem (a.1 + i)
  others : ∀ x ∈ live, x.1 ≠ a.1 → ∀ i, x.1 ≤ i → i < x.1 + x.2 → h'.mem i = h.mem i

/-- A change inside one payload leaves the chain and every `prev`. -/
theorem Chained.write {lo hi : Nat} {m m' : Mem} (hc : Chained lo hi m bs) (hb : b ∈ bs)
    (hm : ∀ i, ¬ (b.addr + 16 ≤ i ∧ i < b.addr + 16 + b.size) → m' i = m i) :
    Chained lo hi m' bs ∧ ∀ x ∈ bs, load32 m' x.addr = load32 m x.addr := by
  have hsame : ∀ x ∈ bs, SameOn x.addr (x.addr + 16) m m' := fun x hx i h1 h2 =>
    hm i (header_apart 16 hc.tiles hx hb h1 h2)
  refine ⟨⟨hc.tiles, fwd_congr (fun x hx => (hsame x hx).mono (by omega) (by omega)) hc.fwd⟩, fun x hx => ?_⟩
  exact load32_congr ((hsame x hx).mono (Nat.le_refl _) (by omega))

/-- The two addresses of the blocks of a tiling tell them apart. -/
theorem payload_ne {lo hi : Nat} (ht : Tiles 16 lo bs hi) {c : Block} (hb : b ∈ bs) (hc : c ∈ bs) (hne : c ≠ b) :
    (payload c).1 ≠ (payload b).1 := by
  intro e
  simp only [payload] at e
  exact hne (tiles_unique 16 (by omega) ht hc hb (by omega))

/-- The copy length of `realloc`. -/
def copyLength (h : St) (ptr : Nat) (size : UInt32) : Nat :=
  if load32 h.mem (sub32 ptr 16 + 8) < size.toNat then load32 h.mem (sub32 ptr 16 + 8) else size.toNat

section
variable {ptr q : Nat} {size : UInt32} {h2 : St}

theorem realloc_refused (e : malloc size (h.see (sub32 ptr 16 + 8) 4) = some (0, h2)) :
    realloc ptr size h = some (0, h2) := by
  simp only [realloc, bind_apply, getSize_apply, Option.bind_some, e, if_true, pure_apply]

theorem realloc_given (e : malloc size (h.see (sub32 ptr 16 + 8) 4) = some (q, h2)) (hq : q ≠ 0) :
    realloc ptr size h =
      (free ptr { h2 with mem := copy h2.mem q ptr (copyLength h ptr size) }).bind fun r => some (q, r.2) := by
  simp only [realloc, bind_apply, getSize_apply, Option.bind_some, e, if_neg hq, memcpy, pure_apply]
  rfl

end

section
variable (ht : Tiled r h (pre ++ b :: post)) (n : UInt32)
include ht

theorem copyLength_eq : copyLength h (b.addr + 16) n = Min.min b.size n.toNat := by
  have hs := (fwd_right ht.chain.fwd).1.2.1
  have hm := tiles_mem 16 ht.chain.tiles (b := b) (by simp)
  have hlt := r.size_eq
  unfold Block.stop at hm
  have hsp : sub32 (b.addr + 16) 16 = b.addr := by rw [sub32_of_le (by omega) (by omega)]; omega
  rw [copyLength, hsp, hs]
  split <;> omega

/-- `realloc` of a block in use whose `prev` is of the kind `free` can do with. -/
theorem realloc_tiled (hu : b.used = true) (hn : n.toNat ≤ 2 ^ 32 - 4) (hp : Named h.mem pre b) :
    ∃ q h', realloc (b.addr + 16) n h = some (q, h') ∧ (q = 0 ∧ h'.mem = h.mem ∧ h'.head = h.head ∨
      q ≠ 0 ∧ ∃ s bs', Moved r h h' ((inUse (pre ++ b :: post)).map payload) (payload b) n.toNat q s bs') := by
  obtain ⟨-, -, hlt, hpos⟩ := r.size_eq
  have hlo := r.lo_le
  have hend : r.heapEnd = r.heapStart + 0x8000 := rfl
  have hbm : b ∈ pre ++ b :: post := by simp
  let h1 : St := h.see (sub32 (b.addr + 16) 16 + 8) 4
  rcases malloc_tiled (h := h1) ⟨ht.head, ht.chain⟩ n with ⟨-, h2, e, hmem, hhead⟩ | ⟨got, h2, bs2, e, hg⟩
  · exact ⟨0, h2, realloc_refused e, Or.inl ⟨rfl, hmem, hhead⟩⟩
  obtain ⟨P, Q, rfl, hnamed⟩ := hg.named rfl hu hp
  have hroom : n.toNat ≤ got.size := (le_align4 hn).trans hg.room
  have hgm : got ∈ inUse (P ++ b :: Q) := (hg.blocks got).mpr (Or.inl rfl)
  have hbm2 : b ∈ P ++ b :: Q := by simp
  have hbu : b ∈ inUse (pre ++ b :: post) := mem_inUse.mpr ⟨hbm, hu⟩
  have hne : b ≠ got := fun e => hg.apart b hbu (by rw [e])
  have hlen := copyLength_eq ht n
  -- the copy goes into the new payload
  let m3 : Mem := copy h2.mem (got.addr + 16) (b.addr + 16) (Min.min b.size n.toNat)
  have hout : ∀ i, ¬ (got.addr + 16 ≤ i ∧ i < got.addr + 16 + got.size) → m3 i = h2.mem i := fun i hi =>
    copy_out (by omega)
  obtain ⟨hc3, hprev⟩ := hg.tiled.chain.write (mem_inUse.mp hgm).1 hout
  have hnamed3 : Named m3 P b := by
    rw [Named, hprev b hbm2]
    exact hnamed
  obtain ⟨h4, bs4, e4, hc4, huse4, hed4⟩ := free_named (h := { h2 with mem := m3 }) hc3 hnamed3 hpos hlt
  have hlist : ∀ x ∈ inUse (pre ++ b :: post), x ∈ P ++ b :: Q := fun x hx =>
    (mem_inUse.mp ((hg.blocks x).mpr (Or.inr hx))).1
  -- bytes of the old payloads, up to the copy
  have hold : ∀ x ∈ inUse (pre ++ b :: post), ∀ i, x.addr + 16 ≤ i → i < x.addr + 16 + x.size → h2.mem i = h.mem i := by
    intro x hx i hi1 hi2
    refine hg.edits.mem i ?_
    rintro ⟨y, hy, hin⟩
    rcases List.mem_append.mp hy with hy | hy
    · exact (ht.chain.payload_alone (mem_inUse.mp hx).1 hi1 hi2).1 ⟨y, hy, hin⟩
    · exact (hg.tiled.chain.payload_alone (hlist x hx) hi1 hi2).1 ⟨y, hy, hin⟩
  have hnew : ∀ x ∈ P ++ b :: Q, ∀ i, x.addr + 16 ≤ i → i < x.addr + 16 + x.size → h4.mem i = m3 i :=
      fun x hx i hi1 hi2 =>
    hed4.mem i (hc3.payload_alone hx hi1 hi2).1
  have hblocks : ∀ x, x ∈ inUse bs4 ↔ x = got ∨ x ∈ inUse (pre ++ b :: post) ∧ x ≠ b := by
    intro x
    rw [huse4, mem_inUse_beside 16 (by omega) hg.tiled.chain.tiles hu, hg.blocks, or_and_right]
    exact or_congr_left (and_iff_left_of_imp fun e => by rw [e]; exact hne.symm)
  have happart : ∀ x ∈ inUse (pre ++ b :: post), x.stop 16 ≤ got.addr ∨ got.stop 16 ≤ x.addr := fun x hx =>
    (tiles_apart 16 hg.tiled.chain.tiles (hlist x hx) (mem_inUse.mp hgm).1).resolve_left fun e =>
    hg.apart x hx (by rw [e])
  refine ⟨got.addr + 16, h4, ?_, Or.inr
      ⟨by omega, got.size, bs4, ⟨hed4.head.trans hg.tiled.head, hc4⟩, hroom, ?_, ?_, ?_, ?_, ?_⟩⟩
  · rw [realloc_given e (by omega), hlen, e4]; rfl
  · intro y
    simp only [List.mem_map, hblocks]
    constructor
    · rintro ⟨x, rfl | ⟨hx, hxb⟩, rfl⟩
      · exact Or.inl rfl
      · exact Or.inr ⟨⟨x, hx, rfl⟩, payload_ne ht.chain.tiles hbm (mem_inUse.mp hx).1 hxb⟩
    · rintro (rfl | ⟨⟨x, hx, rfl⟩, hne⟩)
      · exact ⟨got, Or.inl rfl, rfl⟩
      · exact ⟨x, Or.inr ⟨hx, fun e => hne (by rw [e])⟩, rfl⟩
  · intro y hy
    obtain ⟨x, hx, rfl⟩ := List.mem_map.mp hy
    rcases (hblocks x).mp hx with rfl | ⟨hx, hxb⟩
    · exact payload_ne hg.tiled.chain.tiles hbm2 (mem_inUse.mp hgm).1 hne.symm
    · exact payload_ne ht.chain.tiles hbm (mem_inUse.mp hx).1 hxb
  · intro y hy
    obtain ⟨x, hx, rfl⟩ := List.mem_map.mp hy
    have := happart x hx
    unfold Block.stop at this
    simp only [payload]
    omega
  · intro i hi
    have hab := happart b hbu
    unfold Block.stop at hab
    simp only [payload] at hi ⊢
    rw [hnew got (mem_inUse.mp hgm).1 _ (by omega) (by omega)]
    exact (copy_in (by omega) hi).trans (hold b hbu _ (by omega) (by omega))
  · intro y hy hyb i hi1 hi2
    obtain ⟨x, hx, rfl⟩ := List.mem_map.mp hy
    have hax := happart x hx
    unfold Block.stop at hax
    simp only [payload] at hi1 hi2
    rw [hnew x (hlist x hx) i hi1 hi2, hout i (by omega), hold x hx i hi1 hi2]

end

theorem Moved.congr {live' : List (Nat × Nat)} {a : Nat × Nat} {n q s : Nat} {bs' : List Block}
    (hm : Moved r h h' live a n q s bs') (hl : ∀ x, x ∈ live' ↔ x ∈ live) : Moved r h h' live' a n q s bs' :=
  ⟨hm.tiled, hm.room, fun x => by rw [hm.blocks, hl], hm.gone, fun x hx => hm.apart x ((hl x).mp hx), hm.data,
    fun x hx => hm.others x ((hl x).mp hx)⟩

/-- From every well-formed heap, `realloc` of a live pointer changes nothing or moves the data. -/
theorem realloc_moves (hi : Inv r h live bs) {a : Nat × Nat} (ha : a ∈ live) (n : UInt32) (hn : n.toNat ≤ 2 ^ 32 - 4) :
    ∃ q h', realloc a.1 n h = some (q, h') ∧ (q = 0 ∧ h'.mem = h.mem ∧ h'.head = h.head ∨
      q ≠ 0 ∧ ∃ s bs', Moved r h h' live a n.toNat q s bs') := by
  obtain ⟨pre, b, post, rfl, hu, rfl⟩ := hi.block ha
  obtain ⟨q, h', e, hq⟩ := realloc_tiled hi.tiled n hu hn hi.linked.named
  refine ⟨q, h', e, hq.imp_right (And.imp_right fun hm => ?_)⟩
  obtain ⟨s, bs', hm⟩ := hm
  exact ⟨s, bs', hm.congr hi.live⟩

/-- The block behind is in use: the data moves. -/
theorem realloc_moves_board :
    ∃ h live bs h' s bs', Inv board h live bs ∧ (0x20000010, 16) ∈ live ∧
      realloc 0x20000010 40 h = some (0x20000048, h') ∧
      Moved board h h' live (0x20000010, 16) 40 0x20000048 s bs' ∧ h'.mem 0x20000049 = 0x37 := by
  obtain ⟨c, bs, hi, hc⟩ := played_board [.malloc 16, .malloc 8, .write 0x20000011 0x37]
    (fun c => decide ((0x20000010, 16) ∈ c.live ∧ c.heap.mem 0x20000011 = 0x37 ∧
      ∃ q ∈ realloc 0x20000010 40 c.heap, q.1 = 0x20000048)) (by decide +kernel)
  obtain ⟨hm, hkept, ⟨_, h'⟩, e, rfl⟩ := of_decide_eq_true hc
  obtain ⟨q, h1, er, hq⟩ := realloc_moves hi hm 40 (by decide)
  obtain ⟨rfl, rfl⟩ := Prod.mk.inj (Option.some.inj (e.symm.trans er))
  rcases hq with ⟨h0, -⟩ | ⟨-, s, bs', hmoved⟩
  · cases h0
  · exact ⟨c.heap, c.live, bs, h', s, bs', hi, hm, e, hmoved, (hmoved.data 1 (by decide)).trans hkept⟩

end OpenGpos.Libc.Heap
