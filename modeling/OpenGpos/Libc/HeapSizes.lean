/-
  OpenGpos.Libc.HeapSizes — the size arithmetic of `malloc` and `realloc` over whole runs.
  `ALIGN_4BYTE` wraps to 0 on the three sizes from 2^32 - 3 on: `malloc` then hands out any
  free block (`sizes_hold_iff`). The runs are those that leave the forward chain intact
  (`Unlinks`); they may cut blocks anywhere.
-/
import OpenGpos.Libc.HeapCalls

namespace OpenGpos.Libc.Heap

open OpenGpos.Lib.Bytes OpenGpos.Lib.Tiling OpenGpos.Lib.Runs

/-- A non-NULL `malloc(size)` gives a block of `size` bytes or more, and the copy of a
    `realloc(p, size)` stays inside the block that its `malloc` gives. -/
structure SizesHold (c : Client) (size : UInt32) : Prop where
  malloc : ∀ p h', malloc size c.heap = some (p, h') → p ≠ 0 → size.toNat ≤ load32 h'.mem (p - 8)
  realloc : ∀ a ∈ c.live, ∀ p h', Heap.malloc size (c.heap.see (sub32 a.1 16 + 8) 4) = some (p, h') → p ≠ 0 →
    copyLength c.heap a.1 size ≤ load32 h'.mem (p - 8)

/-- The `prev` of the block at `ptr` is one that `free` can do with. -/
def Current (r : Region) (h : St) (ptr : Nat) : Prop :=
  ∀ pre b post, Tiled r h (pre ++ b :: post) → b.addr + 16 = ptr → Named h.mem pre b

/-- The condition on a step: a block that is given back has a current `prev`, and no `realloc`
    is to a size that wraps. -/
def Unlinks (r : Region) (c : Client) : Op → Prop
  | .free ptr => Current r c.heap ptr
  | .realloc ptr size => Current r c.heap ptr ∧ size.toNat ≤ 2 ^ 32 - 4
  | _ => True

/-- The live allocations are the blocks in use of the chain. -/
structure Holding (r : Region) (h : St) (live : List (Nat × Nat)) (bs : List Block) : Prop where
  tiled : Tiled r h bs
  live : ∀ a, a ∈ live ↔ a ∈ (inUse bs).map payload

variable {r : Region} {h h' : St} {live : List (Nat × Nat)} {bs : List Block}

theorem Inv.holding (hi : Inv r h live bs) : Holding r h live bs := ⟨hi.tiled, hi.live⟩

theorem Tiled.setReads (ht : Tiled r h bs) (rs : List (Nat × Nat)) : Tiled r { h with reads := rs } bs :=
  ⟨ht.head, ht.chain.tiles, ht.chain.fwd⟩

/-- The header of a block in use holds the size that the client sees. -/
theorem Tiled.size (ht : Tiled r h bs) {a : Nat × Nat} (ha : a ∈ (inUse bs).map payload) :
    a.1 ≠ 0 ∧ load32 h.mem (a.1 - 8) = a.2 := by
  obtain ⟨b, hb, -, rfl⟩ := mem_payload.mp ha
  obtain ⟨pre, post, rfl⟩ := List.append_of_mem hb
  have hs := (fwd_right ht.chain.fwd).1.2.1
  have e : b.addr + 16 - 8 = b.addr + 8 := by omega
  exact ⟨by simp, by simp only [e, hs]⟩

/-- A live pointer has its block in the chain. -/
theorem Holding.block (hh : Holding r h live bs) {a : Nat × Nat} (ha : a ∈ live) :
    ∃ pre b post, bs = pre ++ b :: post ∧ b.used = true ∧ payload b = a := by
  obtain ⟨b, hb, hu, rfl⟩ := mem_payload.mp ((hh.live a).mp ha)
  obtain ⟨pre, post, rfl⟩ := List.append_of_mem hb
  exact ⟨pre, b, post, rfl, hu, rfl⟩

/-! ## One call -/

theorem malloc_holding (hh : Holding r h live bs) (size : UInt32) :
    ∃ p h' bs', malloc size h = some (p, h') ∧ Holding r h' (grant live p h') bs' := by
  rcases malloc_tiled hh.tiled size with ⟨-, h', e, hmem, hhead⟩ | ⟨got, h', bs', e, hg⟩
  · refine ⟨0, h', bs, e, ⟨hhead.trans hh.tiled.head, hh.tiled.chain.tiles, ?_⟩, by simpa [grant] using hh.live⟩
    rw [hmem]
    exact hh.tiled.chain.fwd
  have hgot : payload got ∈ (inUse bs').map payload := List.mem_map_of_mem ((hg.blocks got).mpr (Or.inl rfl))
  have hs : grant live (got.addr + 16) h' = payload got :: live := by
    have := (hg.tiled.size hgot).2
    simp only [payload] at this
    rw [grant, if_neg (by omega), this]
    rfl
  refine ⟨got.addr + 16, h', bs', e, hg.tiled, fun a => ?_⟩
  rw [hs, List.mem_cons, hh.live]
  simp only [List.mem_map, hg.blocks]
  constructor
  · rintro (rfl | ⟨x, hx, rfl⟩)
    · exact ⟨got, Or.inl rfl, rfl⟩
    · exact ⟨x, Or.inr hx, rfl⟩
  · rintro ⟨x, rfl | hx, rfl⟩
    · exact Or.inl rfl
    · exact Or.inr ⟨x, hx, rfl⟩

theorem free_holding (hh : Holding r h live bs) {a : Nat × Nat} (ha : a ∈ live) (hc : Current r h a.1) :
    ∃ h' bs', free a.1 h = some ((), h') ∧ Holding r h' (live.filter (·.1 != a.1)) bs' := by
  obtain ⟨-, -, hlt, hpos⟩ := r.size_eq
  obtain ⟨pre, b, post, rfl, hu, rfl⟩ := hh.block ha
  obtain ⟨h', bs', e, hc', huse, hed⟩ := free_named hh.tiled.chain (hc pre b post hh.tiled rfl) hpos hlt
  refine ⟨h', bs', e, ⟨hed.head.trans hh.tiled.head, hc'⟩, fun x => ?_⟩
  have hbeside : ∀ y, y ∈ inUse bs' ↔ y ∈ inUse (pre ++ b :: post) ∧ y ≠ b := fun y => by
    rw [huse, mem_inUse_beside 16 (by omega) hh.tiled.chain.tiles hu]
  rw [List.mem_filter, hh.live x]
  simp only [List.mem_map, hbeside, bne_iff_ne, ne_eq]
  constructor
  · rintro ⟨⟨y, hy, rfl⟩, hne⟩
    exact ⟨y, ⟨hy, fun e => hne (by rw [e])⟩, rfl⟩
  · rintro ⟨y, ⟨hy, hne⟩, rfl⟩
    exact ⟨⟨y, hy, rfl⟩, payload_ne hh.tiled.chain.tiles (by simp) (mem_inUse.mp hy).1 hne⟩

theorem realloc_holding (hh : Holding r h live bs) {a : Nat × Nat} (ha : a ∈ live) (hc : Current r h a.1) {size : UInt32}
    (hw : size.toNat ≤ 2 ^ 32 - 4) : ∃ p h' bs', realloc a.1 size h = some (p, h') ∧
      Holding r h' (if p = 0 then live else grant (live.filter (·.1 != a.1)) p h') bs' := by
  obtain ⟨pre, b, post, rfl, hu, rfl⟩ := hh.block ha
  obtain ⟨q, h', e, ⟨hq, hmem, hhead⟩ | ⟨hq, s, bs', hm⟩⟩ :=
    realloc_tiled hh.tiled size hu hw (hc pre b post hh.tiled rfl)
  · refine ⟨q, h', _, e, ⟨hhead.trans hh.tiled.head, hh.tiled.chain.tiles, ?_⟩, by simpa [hq] using hh.live⟩
    rw [hmem]
    exact hh.tiled.chain.fwd
  refine ⟨q, h', bs', e, hm.tiled, fun x => ?_⟩
  have hs := (hm.tiled.size ((hm.blocks (q, s)).mpr (Or.inl rfl))).2
  rw [if_neg hq, grant, if_neg hq, hs, List.mem_cons, List.mem_filter, hm.blocks, hh.live]
  simp only [bne_iff_ne, ne_eq]

/-! ## Runs -/

def Client.Holds (r : Region) (c : Client) : Prop := ∃ bs, Holding r c.heap c.live bs

theorem step_holds {c c' : Client} {op : Op} (hi : c.Holds r) (hs : Guard (Unlinks r) Step c op c') : c'.Holds r := by
  obtain ⟨bs, hh⟩ := hi
  obtain ⟨hu, ha, e⟩ := hs
  have hf : Holding r { c.heap with reads := [] } c.live bs := ⟨hh.tiled.setReads [], hh.live⟩
  have hcur : ∀ {ptr}, Current r c.heap ptr → Current r { c.heap with reads := [] } ptr := fun hc pre b post ht =>
    hc pre b post (ht.setReads c.heap.reads)
  cases op with
  | malloc size =>
    obtain ⟨p, h', bs', em, hh'⟩ := malloc_holding hf size
    simp only [call, em, Option.bind_eq_bind, Option.bind_some, Option.pure_def, Option.some.injEq] at e
    rw [← e]
    exact ⟨bs', hh'⟩
  | free ptr =>
    by_cases h0 : ptr = 0
    · have hlive : c.live.filter (·.1 != ptr) = c.live := by
        refine List.filter_eq_self.mpr fun a ha => ?_
        simpa [h0] using (hh.tiled.size ((hh.live a).mp ha)).1
      simp only [call, free, h0, if_true, pure_apply, Option.bind_eq_bind, Option.bind_some, Option.pure_def,
        Option.some.injEq] at e
      rw [← e]
      rw [h0] at hlive
      exact ⟨bs, hf.tiled, by rw [hlive]; exact hh.live⟩
    · obtain ⟨a, hal, rfl⟩ : ∃ a ∈ c.live, a.1 = ptr := by simpa [allowed, h0, Client.isLive] using ha
      obtain ⟨h', bs', ef, hh'⟩ := free_holding hf hal (hcur hu)
      simp only [call, ef, Option.bind_eq_bind, Option.bind_some, Option.pure_def, Option.some.injEq] at e
      rw [← e]
      exact ⟨bs', hh'⟩
  | realloc ptr size =>
    obtain ⟨a, hal, rfl⟩ : ∃ a ∈ c.live, a.1 = ptr := by simpa [allowed, Client.isLive] using ha
    obtain ⟨p, h', bs', er, hh'⟩ := realloc_holding hf hal (hcur hu.1) hu.2
    simp only [call, er, Option.bind_eq_bind, Option.bind_some, Option.pure_def, Option.some.injEq] at e
    rw [← e]
    exact ⟨bs', hh'⟩
  | write addr v =>
    obtain ⟨a, hal, h1, h2⟩ : ∃ a ∈ c.live, a.1 ≤ addr ∧ addr < a.1 + a.2 := by simpa [allowed] using ha
    obtain ⟨pre, b, post, rfl, -, rfl⟩ := hh.block hal
    simp only [payload] at h1 h2
    have hout : ∀ i, ¬ (b.addr + 16 ≤ i ∧ i < b.addr + 16 + b.size) → store8 c.heap.mem addr v i = c.heap.mem i :=
      fun i hn => store8_out fun e => hn (by omega)
    obtain ⟨hc, -⟩ := hh.tiled.chain.write (by simp) hout
    simp only [call, Option.some.injEq] at e
    rw [← e]
    exact ⟨_, ⟨hh.tiled.head, hc⟩, hh.live⟩

theorem run_holds {m : Mem} {c c' : Client} {ops : List Op} (h : start r m = some c)
    (hr : Run (Guard (Unlinks r) Step) c ops c') : c'.Holds r := by
  have hstep : ∀ s op t, Client.Holds r s → Guard (Unlinks r) Step s op t → Client.Holds r t := fun _ _ _ => step_holds
  obtain ⟨bs, hi⟩ := start_inv h
  exact hr.invariant hstep ⟨bs, hi.holding⟩

/-- The forward links determine the list. -/
theorem chained_unique {lo hi : Nat} {m : Mem} {bs cs : List Block} (hb : Chained lo hi m bs) (hc : Chained lo hi m cs) :
    bs = cs := by
  induction bs generalizing lo cs with
  | nil =>
    cases cs with
    | nil => rfl
    | cons c cs =>
      have h1 : lo = hi := hb.tiles
      have h2 := tiles_mem 16 hc.tiles List.mem_cons_self
      unfold Block.stop at h2
      omega
  | cons b bs ih =>
    cases cs with
    | nil =>
      have h1 : lo = hi := hc.tiles
      have h2 := tiles_mem 16 hb.tiles List.mem_cons_self
      unfold Block.stop at h2
      omega
    | cons c cs =>
      obtain ⟨⟨hba, htb⟩, ⟨-, hbs, hbu⟩, hfb⟩ := hb
      obtain ⟨⟨hca, htc⟩, ⟨-, hcs, hcu⟩, hfc⟩ := hc
      rw [hba] at hbs hbu
      rw [hca] at hcs hcu
      obtain rfl : b = c := by
        cases b
        cases c
        simp only [Block.mk.injEq] at *
        exact ⟨hba.trans hca.symm, hbs.symm.trans hcs, hbu.symm.trans hcu⟩
      rw [ih ⟨htb, hfb⟩ ⟨htc, hfc⟩]

theorem Inv.current (hi : Inv r h live bs) (ptr : Nat) : Current r h ptr := by
  intro pre b post ht _
  obtain rfl := chained_unique hi.tiled.chain ht.chain
  exact hi.linked.named

theorem Inv.unlinks {c : Client} (hi : Inv r c.heap c.live bs) {op : Op} (hs : Safe c op) : Unlinks r c op := by
  cases op with
  | malloc size => trivial
  | free ptr => exact hi.current ptr
  | realloc ptr size => exact ⟨hi.current ptr, hs.2⟩
  | write addr v => trivial

/-- A run that cuts no block with a successor keeps every `prev` current. -/
theorem safe_run_unlinks {c c' : Client} {ops : List Op} (hr : Run (Guard Safe Step) c ops c') (hi : c.Ok r) :
    Run (Guard (Unlinks r) Step) c ops c' := by
  induction hr with
  | nil c => exact .nil c
  | cons hs _ ih =>
    obtain ⟨bs, hv⟩ := hi
    exact .cons ⟨hv.unlinks hs.1, hs.2⟩ (ih (step_inv ⟨bs, hv⟩ hs))

/-! ## The sizes -/

/-- The sizes that `ALIGN_4BYTE` wraps all become 0. -/
theorem align4_wraps {n : Nat} (h : 2 ^ 32 - 4 < n) (hn : n < 2 ^ 32) : align4 n = 0 := by
  have e : u32 (n + 3) = n + 3 - 2 ^ 32 := by
    unfold u32
    omega
  rw [align4, e]
  omega

/-- The size in the header of the block that `malloc` gave. -/
theorem Given.header {m : Nat} {got : Block} {bs' : List Block} (hg : Given r h h' bs m got bs') :
    load32 h'.mem (got.addr + 16 - 8) = got.size :=
  (hg.tiled.size (List.mem_map_of_mem ((hg.blocks got).mpr (Or.inl rfl)))).2

theorem sizes_hold_tiled {c : Client} (hh : Holding r c.heap c.live bs) (size : UInt32) :
    SizesHold c size ↔ size.toNat ≤ 2 ^ 32 - 4 ∨ ∀ b ∈ bs, b.used = true := by
  obtain ⟨-, -, hlt, hpos⟩ := r.size_eq
  constructor
  · intro hs
    by_contra hn
    simp only [not_or, not_le, not_forall] at hn
    obtain ⟨hw, b, hb, hu⟩ := hn
    have h0 := align4_wraps hw size.toNat_lt
    rcases malloc_tiled hh.tiled size with ⟨hno, -⟩ | ⟨got, h', bs', e, hg⟩
    · -- a free block fits 0 bytes
      have := hno b hb
      rw [h0] at this
      simp [fits, hu] at this
    · have hle := hs.malloc _ _ e (by omega)
      rw [hg.header] at hle
      have hgot := tiles_mem 16 hg.tiled.chain.tiles (mem_inUse.mp ((hg.blocks got).mpr (Or.inl rfl))).1
      unfold Block.stop at hgot
      omega
  · intro hcond
    -- whatever was read before
    have key : ∀ h1 : St, Tiled r h1 bs → ∀ p h', malloc size h1 = some (p, h') → p ≠ 0 →
        size.toNat ≤ load32 h'.mem (p - 8) := by
      intro h1 ht p h' e hp
      rcases malloc_tiled ht size with ⟨-, h2, e2, -, -⟩ | ⟨got, h2, bs', e2, hg⟩
      · rw [e] at e2
        cases e2
        exact absurd rfl hp
      · rw [e] at e2
        cases e2
        rw [hg.header]
        rcases hcond with hw | hall
        · exact (le_align4 hw).trans hg.room
        · obtain ⟨b, hb, hu, -⟩ := hg.taken
          rw [hall b hb] at hu
          cases hu
    refine ⟨key c.heap hh.tiled, fun a _ p h' e hp => ?_⟩
    refine Nat.le_trans ?_ (key (c.heap.see (sub32 a.1 16 + 8) 4) (hh.tiled.setReads _) p h' e hp)
    unfold copyLength
    split <;> omega

/-- In every state that a run with current `prev` fields reaches, the sizes do not wrap exactly if
    the request is at most 2^32 - 4 bytes or there is no free block. -/
theorem sizes_hold_iff {m : Mem} {c c' : Client} {ops : List Op} (h : start r m = some c)
    (hr : Run (Guard (Unlinks r) Step) c ops c') (size : UInt32) : ∃ bs, Tiled r c'.heap bs ∧
      (SizesHold c' size ↔ size.toNat ≤ 2 ^ 32 - 4 ∨ ∀ b ∈ bs, b.used = true) := by
  obtain ⟨bs, hh⟩ := run_holds h hr
  exact ⟨bs, hh.tiled, sizes_hold_tiled hh size⟩

theorem sizes_hold_iff_board : ∃ c c', start board (fun _ => 0) = some c ∧
    Run (Guard (Unlinks board) Step) c [.malloc 16, .malloc 8, .realloc 0x20000010 40, .free 0x20000030] c' ∧
    ∃ bs, Tiled board c'.heap bs ∧ (SizesHold c' 0xFFFFFFFE ↔
      (0xFFFFFFFE : UInt32).toNat ≤ 2 ^ 32 - 4 ∨ ∀ b ∈ bs, b.used = true) := by
  have e : ((start board fun _ => 0).bind fun c => play (fun c op => decide (Safe c op)) c
      [.malloc 16, .malloc 8, .realloc 0x20000010 40, .free 0x20000030]).isSome = true := by
    decide +kernel
  obtain ⟨c', e⟩ := Option.isSome_iff_exists.mp e
  obtain ⟨c, h, e⟩ := Option.bind_eq_some_iff.mp e
  have hr := safe_run_unlinks (play_safe e) (start_inv h)
  exact ⟨c, c', h, hr, sizes_hold_iff h hr 0xFFFFFFFE⟩

/-- `malloc(0xFFFFFFFF)` gives out a block of no bytes. -/
theorem size_wraps : ∃ c c', start board (fun _ => 0) = some c ∧ Run Step c [.malloc 16] c' ∧
    ¬ SizesHold c' 0xFFFFFFFF := by
  have e : ((start board fun _ => 0).bind fun c => (play (fun _ _ => true) c [.malloc 16]).bind fun c' =>
      (malloc 0xFFFFFFFF c'.heap).bind fun r => if r.1 ≠ 0 ∧ load32 r.2.mem (r.1 - 8) = 0 then some (c', r) else none).isSome = true := by
    decide +kernel
  obtain ⟨x, e⟩ := Option.isSome_iff_exists.mp e
  obtain ⟨c, h, e⟩ := Option.bind_eq_some_iff.mp e
  obtain ⟨c', e1, e⟩ := Option.bind_eq_some_iff.mp e
  obtain ⟨⟨p, h'⟩, e2, e⟩ := Option.bind_eq_some_iff.mp e
  by_cases hp : p ≠ 0 ∧ load32 h'.mem (p - 8) = 0
  · refine ⟨c, c', h, play_any e1, fun hs => ?_⟩
    have hle := hs.malloc p h' e2 hp.1
    rw [hp.2] at hle
    exact absurd hle (by decide)
  · rw [if_neg hp] at e
    cases e

end OpenGpos.Libc.Heap
