/-
  OpenGpos.Libc.HeapSpec — what each routine of heap.c makes of a well-formed block list.
  `merge_spec`: `mergeNextMemorySpace` is `absorb`. `find_spec`: the walk ends at the first
  block that fits. `split_spec`: `splitMemorySpace` with the flag that `malloc` sets next is
  `carve`; the back links survive when nothing follows the block it cuts. `malloc_spec` and
  `free_spec` put them together.
-/
import OpenGpos.Libc.HeapRep

namespace OpenGpos.Libc.Heap

open OpenGpos.Lib.Bytes OpenGpos.Lib.Tiling

/-! ## Merging -/

/-- The memory once the successor of an absorbed block points back at `p`. -/
def relink (m : Mem) (p : Nat) (post : List Block) : Mem :=
  if nextAddr post = 0 then m else store32 m (nextAddr post) p

theorem relink_cons {m : Mem} {p : Nat} {d : Block} {post : List Block} (hd : d.addr ≠ 0) :
    relink m p (d :: post) = store32 m d.addr p := if_neg hd

theorem relink_below (m : Mem) (p : Nat) {lo hi : Nat} {post : List Block} (ht : Tiles 16 lo post hi) :
    SameOn 0 lo m (relink m p post) := by
  unfold relink
  cases post with
  | nil => exact SameOn.refl _ _ _
  | cons d post =>
    obtain ⟨hd, -⟩ := ht
    split
    · exact SameOn.refl _ _ _
    · exact sameOn_store32 (Or.inl (by simp only [nextAddr]; omega))

theorem relink_fwd {m : Mem} {p lo hi : Nat} {post : List Block} (ht : Tiles 16 lo post hi) (hf : Fwd m post) :
    Fwd (relink m p post) post := by
  unfold relink
  split
  · exact hf
  · cases post with
    | nil => trivial
    | cons d post =>
      refine fwd_congr (fun x hx => sameOn_store32 (Or.inr ?_)) hf
      have := (tiles_mem 16 ht hx).1
      have hd : d.addr = lo := ht.1
      simp only [nextAddr]; omega

theorem relink_back {m : Mem} {p q lo hi : Nat} {post : List Block} (ht : Tiles 16 lo post hi) (hlo : 0 < lo)
    (hp : p < 2 ^ 32) (hb : Back m q post) : Back (relink m p post) p post := by
  cases post with
  | nil => trivial
  | cons d post =>
    obtain ⟨hd, htp⟩ := ht
    have h0 : nextAddr (d :: post) ≠ 0 := by simp only [nextAddr]; omega
    unfold relink
    rw [if_neg h0]
    refine ⟨load32_store32 hp, back_congr (fun x hx => sameOn_store32 (Or.inr ?_)) hb.2⟩
    have := (tiles_mem 16 htp hx).1
    unfold Block.stop at this
    simp only [nextAddr]; omega

/-- Absorbing a free successor: the run and the memory it leaves. -/
theorem merge_free {b c : Block} {post : List Block} {hi : Nat} (h : St)
    (ht : Tiles 16 b.addr (b :: c :: post) hi) (hf : Fwd h.mem (b :: c :: post)) (hpos : 0 < b.addr)
    (hhi : hi < 2 ^ 32) (hu : c.used = false) :
    ∃ h', mergeNextMemorySpace b.addr h = some (true, h') ∧ Edits (b :: c :: post) h h' ∧
      h'.mem = store32 (store32 (relink h.mem b.addr post) (b.addr + 4) (nextAddr post)) (b.addr + 8)
        (b.size + 16 + c.size) := by
  obtain ⟨⟨hn, hs, -⟩, ⟨hn', hs', ha'⟩, -⟩ := hf
  obtain ⟨-, hc, htp⟩ := ht
  simp only [nextAddr] at hn
  have hbm : b ∈ b :: c :: post := by simp
  have hcm : c ∈ b :: c :: post := by simp
  have hbelow := relink_below h.mem b.addr htp
  unfold Block.stop at hc htp hbelow
  have hc0 : c.addr ≠ 0 := by omega
  have hle := tiles_le 16 htp
  have hsum : u32 (b.size + u32 (16 + c.size)) = b.size + 16 + c.size := by
    rw [u32_of_lt (by omega : 16 + c.size < 2 ^ 32), u32_of_lt (by omega)]; omega
  have e1 : load32 (store32 (relink h.mem b.addr post) (b.addr + 4) (nextAddr post)) (b.addr + 8) = b.size := by
    rw [load32_store32_ne (by omega), load32_congr (hbelow.mono (by omega) (by omega)), hs]
  have e2 : load32 (store32 (relink h.mem b.addr post) (b.addr + 4) (nextAddr post)) (c.addr + 8) = c.size := by
    rw [load32_store32_ne (by omega), load32_congr (hbelow.mono (by omega) (by omega)), hs']
  have t1 := edits_see hbm h (b.addr + 4) 4 (by omega) (by omega)
  have t2 := t1.trans (edits_see hcm _ (c.addr + 12) 1 (by omega) (by omega))
  have t3 := t2.trans (edits_see hcm _ (c.addr + 4) 4 (by omega) (by omega))
  by_cases h0 : nextAddr post = 0
  · -- nothing behind `c`: no back pointer to set
    simp only [relink, h0, if_true] at e1 e2 ⊢
    have t4 := t3.trans (edits_store32 hbm _ (b.addr + 4) 0 (by omega) (by omega))
    have t5 := t4.trans (edits_see hbm _ (b.addr + 8) 4 (by omega) (by omega))
    have t6 := t5.trans (edits_see hcm _ (c.addr + 8) 4 (by omega) (by omega))
    have t7 := t6.trans (edits_store32 hbm _ (b.addr + 8) (b.size + 16 + c.size) (by omega) (by omega))
    exact ⟨_, by simp [mergeNextMemorySpace, hn, hc0, ha', hu, hn', h0, e1, e2, hsum], t7, rfl⟩
  · obtain ⟨d, post, rfl⟩ : ∃ d ds, post = d :: ds := by
      cases post with
      | nil => exact absurd rfl h0
      | cons d ds => exact ⟨d, ds, rfl⟩
    have hdm : d ∈ b :: c :: d :: post := by simp
    simp only [relink, nextAddr] at h0 e1 e2 hn' ⊢
    simp only [h0, if_false] at e1 e2 ⊢
    have t4 := t3.trans (edits_store32 hdm _ d.addr b.addr (by omega) (by omega))
    have t5 := t4.trans (edits_store32 hbm _ (b.addr + 4) d.addr (by omega) (by omega))
    have t6 := t5.trans (edits_see hbm _ (b.addr + 8) 4 (by omega) (by omega))
    have t7 := t6.trans (edits_see hcm _ (c.addr + 8) 4 (by omega) (by omega))
    have t8 := t7.trans (edits_store32 hbm _ (b.addr + 8) (b.size + 16 + c.size) (by omega) (by omega))
    exact ⟨_, by simp [mergeNextMemorySpace, hn, hc0, ha', hu, hn', h0, e1, e2, hsum], t8, rfl⟩

/-- A block with nothing free behind it is left alone. -/
theorem merge_stays {b : Block} {post : List Block} {hi : Nat} (h : St) (ht : Tiles 16 b.addr (b :: post) hi)
    (hf : Fwd h.mem (b :: post)) (hpos : 0 < b.addr) (hu : ∀ c ∈ post.head?, c.used = true) :
    ∃ h', mergeNextMemorySpace b.addr h = some (false, h') ∧ h'.mem = h.mem ∧ Edits (b :: post) h h' := by
  obtain ⟨⟨hn, -, -⟩, hf'⟩ := hf
  have hbm : b ∈ b :: post := by simp
  have t1 := edits_see hbm h (b.addr + 4) 4 (by omega) (by omega)
  cases post with
  | nil => exact ⟨h.see (b.addr + 4) 4, by simp [mergeNextMemorySpace, hn, nextAddr], rfl, t1⟩
  | cons c post =>
    obtain ⟨⟨-, -, ha'⟩, -⟩ := hf'
    have hc := ht.2.1
    have hcm : c ∈ b :: c :: post := by simp
    have hc0 : c.addr ≠ 0 := by
      unfold Block.stop at hc
      omega
    simp only [nextAddr] at hn
    refine ⟨(h.see (b.addr + 4) 4).see (c.addr + 12) 1, ?_, rfl,
      t1.trans (edits_see hcm _ (c.addr + 12) 1 (by omega) (by omega))⟩
    simp [mergeNextMemorySpace, hn, hc0, ha', hu c (by simp)]

theorem merge_spec {b : Block} {post : List Block} {hi : Nat} (h : St) (ht : Tiles 16 b.addr (b :: post) hi)
    (hf : Fwd h.mem (b :: post)) (hpos : 0 < b.addr) (hhi : hi < 2 ^ 32) :
    ∃ v h', mergeNextMemorySpace b.addr h = some (v, h') ∧ Fwd h'.mem (absorb 16 b post) ∧
      (∀ p, Back h.mem p (b :: post) → Back h'.mem p (absorb 16 b post)) ∧ Edits (b :: post) h h' ∧
      SameOn 0 (b.addr + 4) h.mem h'.mem := by
  have hf0 := hf
  have ht0 := ht
  obtain ⟨⟨hn, hs, ha⟩, hf'⟩ := hf
  cases post with
  | nil =>
    obtain ⟨h', e, hm, hed⟩ := merge_stays h ht0 hf0 hpos (by simp)
    refine ⟨false, h', e, ?_, fun p hb => ?_, hed, ?_⟩
    · rw [hm]; exact hf0
    · rw [hm]; exact hb
    · rw [hm]; exact SameOn.refl _ _ _
  | cons c post =>
    obtain ⟨⟨hn', hs', ha'⟩, hf''⟩ := hf'
    obtain ⟨-, hc, htp⟩ := ht
    have hst := htp
    unfold Block.stop at hc hst
    have hle := tiles_le 16 hst
    by_cases hu : c.used = true
    · obtain ⟨h', e, hm, hed⟩ := merge_stays h ht0 hf0 hpos (by simpa using hu)
      have hab : absorb 16 b (c :: post) = b :: c :: post := by simp [absorb, hu]
      rw [hab]
      refine ⟨false, h', e, ?_, fun p hb => ?_, hed, ?_⟩
      · rw [hm]; exact hf0
      · rw [hm]; exact hb
      · rw [hm]; exact SameOn.refl _ _ _
    · have hu' : c.used = false := by simpa using hu
      have hab : absorb 16 b (c :: post) = { b with size := b.size + 16 + c.size } :: post := by simp [absorb, hu]
      obtain ⟨h', e, hed, hm⟩ := merge_free h ht0 hf0 hpos hhi hu'
      have hbelow := relink_below h.mem b.addr htp
      have hge : ∀ x ∈ post, b.addr + 12 ≤ x.addr := fun x hx => by
        have := (tiles_mem 16 hst hx).1; omega
      have hn32 : nextAddr post < 2 ^ 32 := by
        cases post with
        | nil => simp [nextAddr]
        | cons d ds => have := (tiles_mem 16 hst (List.mem_cons_self)).2; unfold Block.stop at this; simp only [nextAddr]; omega
      unfold Block.stop at hbelow
      rw [hab]
      refine ⟨true, h', e, ?_⟩
      rw [hm]
      refine ⟨⟨⟨?_, ?_, ?_⟩, ?_⟩, fun p hb => ⟨?_, ?_⟩, hed, ?_⟩
      · rw [load32_store32_ne (by simp only; omega), load32_store32 hn32]
      · exact load32_store32 (by omega)
      · rw [store32_out (by simp only; omega), store32_out (by simp only; omega), hbelow _ (by omega) (by simp only; omega)]
        exact ha
      · have hr : Fwd (relink h.mem b.addr post) post := relink_fwd htp hf''
        refine fwd_congr (fun x hx => ?_) hr
        have := hge x hx
        exact (sameOn_store32 (by omega)).trans (sameOn_store32 (by omega))
      · show load32 (store32 (store32 _ _ _) _ _) b.addr = p
        rw [load32_store32_ne (by omega), load32_store32_ne (by omega),
          load32_congr (hbelow.mono (by omega) (by omega))]
        exact hb.1
      · have hr : Back (relink h.mem b.addr post) b.addr post :=
          relink_back htp (by unfold Block.stop; omega) (by omega) hb.2.2
        refine back_congr (fun x hx => ?_) hr
        have := hge x hx
        exact (sameOn_store32 (by omega)).trans (sameOn_store32 (by omega))
      · exact ((hbelow.mono (by omega) (by omega)).trans (sameOn_store32 (by omega))).trans
          (sameOn_store32 (by omega))

/-- The `prev` fields behind a block at `p` that was offered its successor: the block behind an
    absorbed one points at `p`, and the other blocks in use keep theirs. -/
structure Relinked (m m' : Mem) (p : Nat) (post : List Block) : Prop where
  behind : ∀ {c x : Block} {tl : List Block}, post = c :: x :: tl → c.used = false → load32 m' x.addr = p
  kept : ∀ {t tl : List Block} {x : Block}, post = t ++ x :: tl → x.used = true → (∀ c, t = [c] → c.used = true) →
    load32 m' x.addr = load32 m x.addr

theorem Relinked.congr {m m' m'' : Mem} {p : Nat} {post : List Block} (hr : Relinked m m' p post)
    (hs : ∀ x ∈ post, load32 m'' x.addr = load32 m' x.addr) : Relinked m m'' p post := by
  refine ⟨fun hp hc => ?_, fun hp hx ht => ?_⟩
  · rw [hs _ (by simp [hp]), hr.behind hp hc]
  · rw [hs _ (by simp [hp]), hr.kept hp hx ht]

theorem merge_relinks {b : Block} {post : List Block} {hi : Nat} {h h' : St} {v : Bool} (ht : Tiles 16 b.addr (b :: post) hi)
    (hf : Fwd h.mem (b :: post)) (hpos : 0 < b.addr) (hhi : hi < 2 ^ 32)
    (e : mergeNextMemorySpace b.addr h = some (v, h')) : Relinked h.mem h'.mem b.addr post := by
  by_cases hu : ∀ c ∈ post.head?, c.used = true
  · obtain ⟨h1, e1, hm, -⟩ := merge_stays h ht hf hpos hu
    rw [e] at e1
    cases e1
    refine ⟨fun hp hc => ?_, fun _ _ _ => by rw [hm]⟩
    rw [hu _ (by simp [hp])] at hc
    cases hc
  · obtain ⟨c, tl, rfl, hc⟩ : ∃ c tl, post = c :: tl ∧ c.used = false := by
      cases post with
      | nil => exact absurd (by simp) hu
      | cons c tl => exact ⟨c, tl, rfl, by simpa using hu⟩
    obtain ⟨h1, e1, -, hm⟩ := merge_free h ht hf hpos hhi hc
    rw [e] at e1
    cases e1
    have htl := ht.2.2
    have hle := tiles_le 16 htl
    have hcb : c.addr = b.stop 16 := ht.2.1
    unfold Block.stop at hcb hle
    -- `prev` fields of `tl` are written by the relinking only
    have hfield : ∀ x ∈ tl, load32 h'.mem x.addr = load32 (relink h.mem b.addr tl) x.addr := fun x hx => by
      have := (tiles_mem 16 htl hx).1
      unfold Block.stop at this
      rw [hm, load32_store32_ne (by omega), load32_store32_ne (by omega)]
    refine ⟨fun hp _ => ?_, fun {t tl' x} hp hx ht1 => ?_⟩
    · obtain ⟨-, rfl⟩ := List.cons.inj hp
      have hx := (tiles_mem 16 htl List.mem_cons_self).1
      unfold Block.stop at hx
      rw [hfield _ List.mem_cons_self, relink_cons (by omega), load32_store32 (by omega)]
    · cases t with
      | nil =>
        obtain ⟨rfl, -⟩ := List.cons.inj hp
        rw [hc] at hx
        cases hx
      | cons c' t =>
        obtain ⟨rfl, rfl⟩ := List.cons.inj (hp.trans List.cons_append)
        have hx' := hfield x (by simp)
        cases t with
        | nil =>
          rw [ht1 c rfl] at hc
          cases hc
        | cons d t =>
          have hd := (tiles_mem 16 htl List.mem_cons_self).1
          have hxd := (tiles_mem 16 htl.2 (b := x) (by simp)).1
          unfold Block.stop at hd hxd
          rw [hx', List.cons_append, relink_cons (by omega), load32_store32_ne (by omega)]

/-! ## Finding -/

/-- The walk goes on past a block with a successor that does not fit. -/
theorem skips_spec {b : Block} {post : List Block} (size : Nat) (h : St) (hb : Header h.mem b (nextAddr post))
    (h0 : ∀ c ∈ post, c.addr ≠ 0) :
    ∃ h', skips b.addr size h = some (!post.isEmpty && !fits size b, h') ∧ h'.mem = h.mem ∧ Edits [b] h h' := by
  obtain ⟨hn, hs, ha⟩ := hb
  have hbm : b ∈ [b] := by simp
  have t1 := edits_see hbm h (b.addr + 4) 4 (by omega) (by omega)
  cases post with
  | nil => exact ⟨h.see (b.addr + 4) 4, by simp [skips, hn, nextAddr], rfl, t1⟩
  | cons c post =>
    have hc : c.addr ≠ 0 := h0 c (by simp)
    have t2 := t1.trans (edits_see hbm _ (b.addr + 12) 1 (by omega) (by omega))
    by_cases hu : b.used = true
    · exact ⟨(h.see (b.addr + 4) 4).see (b.addr + 12) 1, by simp [skips, hn, nextAddr, hc, ha, hu, fits], rfl, t2⟩
    · have hu' : b.used = false := by simpa using hu
      have t3 := t2.trans (edits_see hbm _ (b.addr + 8) 4 (by omega) (by omega))
      refine ⟨((h.see (b.addr + 4) 4).see (b.addr + 12) 1).see (b.addr + 8) 4, ?_, rfl, t3⟩
      have : decide (b.size < size) = !decide (size ≤ b.size) := by
        by_cases hl : size ≤ b.size <;> simp [hl]; omega
      simp [skips, hn, nextAddr, hc, ha, hu', hs, fits, this]

/-- The walk stops at the first block that fits, or at the last block. -/
theorem findLoop_spec (size : Nat) : ∀ (post : List Block) (b : Block) (k : Nat) (h : St), Fwd h.mem (b :: post) →
    (∀ c ∈ post, c.addr ≠ 0) → post.length < k →
    ∃ pre c tl h', b :: post = pre ++ c :: tl ∧ (∀ p ∈ pre, fits size p = false) ∧ (fits size c = true ∨ tl = []) ∧
      findLoop size k b.addr h = some (c.addr, h') ∧ h'.mem = h.mem ∧ Edits (b :: post) h h' := by
  intro post
  induction post with
  | nil =>
    intro b k h hf h0 hk
    obtain ⟨h', e, hm, hed⟩ := skips_spec size h hf.1 h0
    obtain ⟨k, rfl⟩ := Nat.exists_eq_add_one_of_ne_zero (show k ≠ 0 by omega)
    exact ⟨[], b, [], h', rfl, by simp, Or.inr rfl, by simp [findLoop, e], hm, hed⟩
  | cons d post ih =>
    intro b k h hf h0 hk
    obtain ⟨h', e, hm, hed⟩ := skips_spec size h hf.1 h0
    obtain ⟨k, rfl⟩ := Nat.exists_eq_add_one_of_ne_zero (show k ≠ 0 by omega)
    have hed' : Edits (b :: d :: post) h h' := hed.mono fun _ hi => hi.imp fun _ hx => ⟨by simp_all, hx.2⟩
    by_cases hb : fits size b = true
    · exact ⟨[], b, d :: post, h', rfl, by simp, Or.inl hb, by simp [findLoop, e, hb], hm, hed'⟩
    · have hb' : fits size b = false := by simpa using hb
      have hn : load32 h.mem (b.addr + 4) = d.addr := hf.1.1
      obtain ⟨pre, c, tl, h'', he, hp, hc, er, hm', hed''⟩ :=
        ih d k (h'.see (b.addr + 4) 4) (by simpa [hm] using hf.2) (fun c hc => h0 c (by simp [hc]))
          (by simp only [List.length_cons] at hk; omega)
      refine ⟨b :: pre, c, tl, h'', by rw [he]; rfl, ?_, hc, ?_, by simpa [hm] using hm', ?_⟩
      · intro p hp'
        rcases List.mem_cons.mp hp' with rfl | hp'
        · exact hb'
        · exact hp p hp'
      · simp [findLoop, e, hb', hm, hn, er]
      · have t := hed'.trans (edits_see List.mem_cons_self _ (b.addr + 4) 4 (by omega) (by omega))
        exact t.trans (hed''.mono fun _ hi => hi.imp fun _ hx => ⟨List.mem_cons_of_mem _ hx.1, hx.2⟩)

/-- What `findFreeSpace` makes of the block that the loop stops at. -/
theorem findFreeSpace_eq {size p : Nat} {h h' : St} (e : findLoop size (2 ^ 32) h.head h = some (p, h')) :
    findFreeSpace size h = if load32 h'.mem (p + 8) < size then some (0, h'.see (p + 8) 4)
      else if (h'.mem (p + 12) != 0) = true then some (0, (h'.see (p + 8) 4).see (p + 12) 1)
      else some (p, (h'.see (p + 8) 4).see (p + 12) 1) := by
  unfold findFreeSpace
  rw [bind_apply, get_apply]
  show (findLoop size (2 ^ 32) h.head h).bind _ = _
  rw [e]
  by_cases hs : load32 h'.mem (p + 8) < size
  · simp [hs]
  · by_cases ha : (h'.mem (p + 12) != 0) = true
    · simp [hs, ha]
    · simp [hs, ha]

/-- `findFreeSpace` gives the first block that fits, or NULL when there is none. -/
theorem find_spec {bs : List Block} {lo hi : Nat} (size : Nat) (h : St) (ht : Tiles 16 lo bs hi) (hf : Fwd h.mem bs)
    (hne : bs ≠ []) (hhd : h.head = lo) (hpos : 0 < lo) (hhi : hi < 2 ^ 32) :
    ((∀ b ∈ bs, fits size b = false) ∧
      ∃ h', findFreeSpace size h = some (0, h') ∧ h'.mem = h.mem ∧ Edits bs h h') ∨
    ∃ pre b post h', bs = pre ++ b :: post ∧ (∀ p ∈ pre, fits size p = false) ∧ fits size b = true ∧
      findFreeSpace size h = some (b.addr, h') ∧ h'.mem = h.mem ∧ Edits bs h h' := by
  obtain ⟨a, xs, rfl⟩ : ∃ a xs, bs = a :: xs := by
    cases bs with
    | nil => exact absurd rfl hne
    | cons a xs => exact ⟨a, xs, rfl⟩
  have hlen := tiles_length 16 ht
  have h0 : ∀ c ∈ xs, c.addr ≠ 0 := fun c hc => by
    have := (tiles_mem 16 ht (List.mem_cons_of_mem _ hc)).1; omega
  obtain ⟨pre, c, tl, h', he, hp, hc, e, hm, hed⟩ := findLoop_spec size xs a (2 ^ 32) h hf h0
    (by simp only [List.length_cons] at hlen; omega)
  have hcm : c ∈ a :: xs := by rw [he]; simp
  have hh : Header h.mem c (nextAddr tl) := by rw [he] at hf; exact (fwd_right hf).1
  obtain ⟨-, hs, ha⟩ := hh
  have hstart : a.addr = h.head := by rw [hhd]; exact ht.1
  have t1 := hed.trans (edits_see hcm _ (c.addr + 8) 4 (by omega) (by omega))
  have t2 := t1.trans (edits_see hcm _ (c.addr + 12) 1 (by omega) (by omega))
  rw [hstart] at e
  by_cases hl : c.size < size
  · have hn : fits size c = false := by simp [fits]; omega
    rcases hc with hc | rfl
    · rw [hn] at hc; cases hc
    · refine Or.inl ⟨fun b hb => ?_, h'.see (c.addr + 8) 4, by simp [findFreeSpace_eq e, hm, hs, hl], hm, t1⟩
      rw [he] at hb
      rcases List.mem_append.mp hb with hb | hb
      · exact hp b hb
      · simp only [List.mem_singleton] at hb; rw [hb]; exact hn
  · by_cases hu : c.used = true
    · have hn : fits size c = false := by simp [fits, hu]
      rcases hc with hc | rfl
      · rw [hn] at hc; cases hc
      · refine Or.inl ⟨fun b hb => ?_, (h'.see (c.addr + 8) 4).see (c.addr + 12) 1,
          by simp [findFreeSpace_eq e, hm, hs, hl, ha, hu], hm, t2⟩
        rw [he] at hb
        rcases List.mem_append.mp hb with hb | hb
        · exact hp b hb
        · simp only [List.mem_singleton] at hb; rw [hb]; exact hn
    · have hy : fits size c = true := by simp [fits, hu]; omega
      exact Or.inr ⟨pre, c, tl, (h'.see (c.addr + 8) 4).see (c.addr + 12) 1, he, hp, hy,
        by simp [findFreeSpace_eq e, hm, hs, hl, ha, hu], hm, t2⟩

/-! ## Splitting and handing out -/

/-- The flag of the head block set; nothing else changes. -/
theorem setUsed_fwd {m : Mem} {b : Block} {post : List Block} {hi : Nat} (v : Bool)
    (ht : Tiles 16 (b.stop 16) post hi) (hf : Fwd m (b :: post)) :
    Fwd (store8 m (b.addr + 12) (if v then 1 else 0)) ({ b with used := v } :: post) := by
  obtain ⟨⟨hn, hs, -⟩, hf⟩ := hf
  refine ⟨⟨?_, ?_, ?_⟩, fwd_congr (fun x hx => sameOn_store8 (Or.inr ?_)) hf⟩
  · exact (load32_store8_ne (Or.inr (by simp only; omega))).trans hn
  · exact (load32_store8_ne (Or.inr (by simp only; omega))).trans hs
  · cases v <;> simp
  · have := (tiles_mem 16 ht hx).1
    unfold Block.stop at this; omega

theorem split_no {b : Block} {n nx : Nat} (h : St) (hb : Header h.mem b nx) (hn : n + 20 < 2 ^ 32)
    (hs : b.size ≤ n + 20) : splitMemorySpace b.addr n h = some (false, h.see (b.addr + 8) 4) := by
  have hw : u32 (u32 (n + 16) + 4) = n + 20 := by
    rw [u32_of_lt (by omega : n + 16 < 2 ^ 32), u32_of_lt (by omega)]
  have hs' : ¬ n + 20 < b.size := by omega
  simp [splitMemorySpace, hb.2.1, hw, hs']

/-- The memory once `b` is cut to `n` bytes and the new header is written, before the
    new block is offered its successor. -/
def cutMem (m : Mem) (b : Block) (n nx : Nat) : Mem :=
  let next := b.addr + 16 + n
  let m := store32 (store32 (store32 m next b.addr) (next + 4) nx) (next + 8) (b.size - n - 16)
  store32 (store32 (store8 m (next + 12) 0) (b.addr + 4) next) (b.addr + 8) n

theorem cutMem_below (m : Mem) (b : Block) (n nx : Nat) : SameOn 0 (b.addr + 4) m (cutMem m b n nx) := by
  intro i _ hi
  unfold cutMem
  rw [store32_out (by omega), store32_out (by omega), store8_out (by omega), store32_out (by omega),
    store32_out (by omega), store32_out (by omega)]

/-- Past the block nothing has changed. -/
theorem cutMem_above (m : Mem) (b : Block) (n nx : Nat) (hs : n + 20 < b.size) {hi : Nat} :
    SameOn (b.stop 16) hi m (cutMem m b n nx) := by
  intro i hi _
  unfold Block.stop at hi
  unfold cutMem
  rw [store32_out (by omega), store32_out (by omega), store8_out (by omega), store32_out (by omega),
    store32_out (by omega), store32_out (by omega)]

theorem cutMem_fwd {m : Mem} {b : Block} {post : List Block} {n hi : Nat} (ht : Tiles 16 b.addr (b :: post) hi)
    (hf : Fwd m (b :: post)) (hpos : 0 < b.addr) (hhi : hi < 2 ^ 32) (hs : n + 20 < b.size) :
    Fwd (cutMem m b n (nextAddr post)) ({ b with size := n } :: ⟨b.addr + 16 + n, b.size - n - 16, false⟩ :: post) ∧
      load32 (cutMem m b n (nextAddr post)) (b.addr + 16 + n) = b.addr := by
  obtain ⟨⟨hn, hsz, ha⟩, hf'⟩ := hf
  have htp := ht.2
  have hle := tiles_le 16 htp
  have hnx : nextAddr post < 2 ^ 32 := by
    cases post with
    | nil => simp [nextAddr]
    | cons d ds =>
      have := (tiles_mem 16 htp List.mem_cons_self).2
      unfold Block.stop at this; simp only [nextAddr]; omega
  unfold Block.stop at htp hle
  refine ⟨⟨⟨?_, ?_, ?_⟩, ⟨?_, ?_, ?_⟩, fwd_congr (fun x hx => ?_) hf'⟩, ?_⟩
  · simp (disch := omega) only [cutMem, nextAddr, load32_store32_ne, load32_store32]
  · simp (disch := omega) only [cutMem, load32_store32]
  · show (cutMem m b n (nextAddr post) (b.addr + 12) != 0) = b.used
    rw [← ha]
    simp (disch := omega) only [cutMem, store32_out, store8_out]
  · simp (disch := omega) only [cutMem, load32_store32_ne, load32_store8_ne, load32_store32]
  · simp (disch := omega) only [cutMem, load32_store32_ne, load32_store8_ne, load32_store32]
  · simp (disch := omega) only [cutMem, store32_out, store8_same]
    rfl
  · have := (tiles_mem 16 htp hx).1
    intro i h1 h2
    simp (disch := omega) only [cutMem, store32_out, store8_out]
  · simp (disch := omega) only [cutMem, load32_store32_ne, load32_store8_ne, load32_store32]

/-- Cutting `b` to `n` bytes: the rest becomes a free block behind it. -/
theorem split_yes {b : Block} {post : List Block} {n hi : Nat} (h : St) (ht : Tiles 16 b.addr (b :: post) hi)
    (hf : Fwd h.mem (b :: post)) (hpos : 0 < b.addr) (hhi : hi < 2 ^ 32) (hs : n + 20 < b.size) :
    ∃ h', splitMemorySpace b.addr n h = some (true, h') ∧
      Fwd h'.mem ({ b with size := n } :: absorb 16 ⟨b.addr + 16 + n, b.size - n - 16, false⟩ post) ∧
      load32 h'.mem (b.addr + 16 + n) = b.addr ∧
      Edits (b :: ⟨b.addr + 16 + n, b.size - n - 16, false⟩ :: post) h h' ∧ SameOn 0 (b.addr + 4) h.mem h'.mem ∧
      Relinked h.mem h'.mem (b.addr + 16 + n) post := by
  obtain ⟨hfc, hpc⟩ := cutMem_fwd ht hf hpos hhi hs
  obtain ⟨⟨hn, hsz, -⟩, -⟩ := hf
  have htp := ht.2
  have hle := tiles_le 16 htp
  unfold Block.stop at htp hle
  let nb : Block := ⟨b.addr + 16 + n, b.size - n - 16, false⟩
  have hbm : b ∈ b :: nb :: post := by simp
  have hnm : nb ∈ b :: nb :: post := by simp
  have hw : u32 (u32 (n + 16) + 4) = n + 20 := by
    rw [u32_of_lt (by omega : n + 16 < 2 ^ 32), u32_of_lt (by omega)]
  have hnx : u32 (u32 (b.addr + 16) + n) = b.addr + 16 + n := by
    rw [u32_of_lt (by omega : b.addr + 16 < 2 ^ 32), u32_of_lt (by omega)]
  have hrest : sub32 (sub32 b.size n) 16 = b.size - n - 16 := by
    rw [sub32_of_le (by omega : n ≤ b.size) (by omega), sub32_of_le (by omega) (by omega)]
  have e1 : load32 (store32 h.mem (b.addr + 16 + n) b.addr) (b.addr + 4) = nextAddr post := by
    rw [load32_store32_ne (by omega), hn]
  have e2 : load32 (store32 (store32 h.mem (b.addr + 16 + n) b.addr) (b.addr + 16 + n + 4) (nextAddr post))
      (b.addr + 8) = b.size := by
    rw [load32_store32_ne (by omega), load32_store32_ne (by omega), hsz]
  have t1 := edits_see hbm h (b.addr + 8) 4 (by omega) (by omega)
  have t2 := t1.trans (edits_store32 hnm _ (b.addr + 16 + n) b.addr (by simp [nb]) (by simp [nb]))
  have t3 := t2.trans (edits_see hbm _ (b.addr + 4) 4 (by omega) (by omega))
  have t4 := t3.trans (edits_store32 hnm _ (b.addr + 16 + n + 4) (nextAddr post) (by simp [nb]) (by simp [nb]))
  have t5 := t4.trans (edits_see hbm _ (b.addr + 8) 4 (by omega) (by omega))
  have t6 := t5.trans (edits_store32 hnm _ (b.addr + 16 + n + 8) (b.size - n - 16) (by simp [nb]) (by simp [nb]))
  have t7 := t6.trans (edits_store8 hnm _ (b.addr + 16 + n + 12) 0 (by simp [nb]) (by simp [nb]))
  have t8 := t7.trans (edits_store32 hbm _ (b.addr + 4) (b.addr + 16 + n) (by omega) (by omega))
  have t9 := t8.trans (edits_store32 hbm _ (b.addr + 8) n (by omega) (by omega))
  have htn : Tiles 16 nb.addr (nb :: post) hi := by
    refine ⟨rfl, ?_⟩
    have : nb.stop 16 = b.addr + 16 + b.size := by simp only [nb, Block.stop]; omega
    rw [this]; exact htp
  -- the stores, up to the merge of the new block
  obtain ⟨h6, e6, hm6, ht6⟩ : ∃ h6, splitMemorySpace b.addr n h =
      (mergeNextMemorySpace (b.addr + 16 + n) h6).bind (fun r => some (true, r.2)) ∧
      h6.mem = cutMem h.mem b n (nextAddr post) ∧ Edits (b :: nb :: post) h h6 :=
    ⟨_, by simp [splitMemorySpace, hsz, hw, hs, hnx, e1, e2, hrest], rfl, t9⟩
  rw [← hm6] at hfc hpc
  obtain ⟨v, h', em, hfm, -, hem, hsame⟩ := merge_spec h6 htn hfc.2 (by simp only [nb]; omega) hhi
  have hbelow := cutMem_below h.mem b n (nextAddr post)
  rw [← hm6] at hbelow
  have hrel := merge_relinks htn hfc.2 (by simp only [nb]; omega) hhi em
  refine ⟨h', by rw [e6, em]; rfl, ⟨?_, hfm⟩, ?_, ?_, ?_, hrel.behind, fun {t tl x} hp hx ht1 => ?_⟩
  · rw [nextAddr_absorb]
    exact header_congr (hsame.mono (by omega) (by simp only [nb]; omega)) hfc.1
  · rw [load32_congr (hsame.mono (by omega) (by simp only [nb]; omega))]; exact hpc
  · exact ht6.trans (hem.mono fun _ hi => hi.imp fun _ hx => ⟨List.mem_cons_of_mem _ hx.1, hx.2⟩)
  · exact hbelow.trans (hsame.mono (by omega) (by simp only [nb]; omega))
  · have hxa := (tiles_mem 16 ht.2 (b := x) (by simp [hp])).1
    rw [hrel.kept hp hx ht1, hm6]
    exact load32_congr ((cutMem_above h.mem b n (nextAddr post) hs).mono hxa (Nat.le_refl _))

/-! ## malloc and free -/

/-- A list as heap.c keeps it: blocks that tile `[lo, hi)`, chained both ways. -/
structure Linked (lo hi : Nat) (m : Mem) (bs : List Block) : Prop where
  tiles : Tiles 16 lo bs hi
  fwd : Fwd m bs
  back : Back m 0 bs

/-- The `prev` fields behind a block that was handed out for `n` bytes. -/
def RelinkedBy (m m' : Mem) (n : Nat) (b : Block) (post : List Block) : Prop :=
  if n + 20 < b.size then Relinked m m' (b.addr + 16 + n) post else ∀ x ∈ post, load32 m' x.addr = load32 m x.addr

/-- Cutting and flagging `b` is `carve`. -/
theorem handOut_spec {b : Block} {post : List Block} {n hi : Nat} (h : St) (ht : Tiles 16 b.addr (b :: post) hi)
    (hf : Fwd h.mem (b :: post)) (hpos : 0 < b.addr) (hhi : hi < 2 ^ 32) (hn : n + 20 < 2 ^ 32) :
    ∃ v h1 h', splitMemorySpace b.addr n h = some (v, h1) ∧ setIsAllocated b.addr true h1 = some ((), h') ∧
      Fwd h'.mem (carve 16 4 n b post) ∧
      (∀ p, Back h.mem p (b :: post) → (n + 20 < b.size → post = []) → Back h'.mem p (carve 16 4 n b post)) ∧
      Edits (b :: post ++ carve 16 4 n b post) h h' ∧ SameOn 0 (b.addr + 4) h.mem h'.mem ∧
      RelinkedBy h.mem h'.mem n b post := by
  have hbm : b ∈ b :: post ++ carve 16 4 n b post := by simp
  -- setting the flag of `b` touches no `prev` field behind it
  have hflag : ∀ m : Mem, ∀ x ∈ post, load32 (store8 m (b.addr + 12) 1) x.addr = load32 m x.addr := fun m x hx => by
    have hxa := (tiles_mem 16 ht.2 hx).1
    unfold Block.stop at hxa
    exact load32_store8_ne (Or.inl (by omega))
  by_cases hs : n + 20 < b.size
  · obtain ⟨h1, e1, hf1, hp1, hed, hsame, hrel⟩ := split_yes h ht hf hpos hhi hs
    let nb : Block := ⟨b.addr + 16 + n, b.size - n - 16, false⟩
    have hc : carve 16 4 n b post = { b with size := n, used := true } :: absorb 16 nb post := by
      simp [carve, nb]; omega
    have htn : Tiles 16 (nb.stop 16) post hi := by
      have : nb.stop 16 = b.stop 16 := by simp only [nb, Block.stop]; omega
      rw [this]; exact ht.2
    have hta : Tiles 16 (Block.stop 16 { b with size := n }) (absorb 16 nb post) hi := tiles_absorb 16 htn
    have hfu := setUsed_fwd true hta hf1
    have hsame8 : SameOn 0 (b.addr + 4) h1.mem (store8 h1.mem (b.addr + 12) (if true then 1 else 0)) :=
      sameOn_store8 (Or.inl (by omega))
    refine ⟨true, h1, _, e1, rfl, by rw [hc]; exact hfu, fun p hb hg => ?_, ?_, hsame.trans hsame8, ?_⟩
    · have hpost := hg hs
      subst hpost
      rw [hc]
      have h8 : load32 (store8 h1.mem (b.addr + 12) 1) nb.addr = load32 h1.mem nb.addr :=
        load32_store8_ne (Or.inl (by simp only [nb]; omega))
      refine ⟨?_, h8.trans hp1, trivial⟩
      exact (load32_congr ((hsame.trans hsame8).mono (by omega) (by simp only; omega))).trans hb.1
    · refine (hed.mono fun i hi => ?_).trans (edits_store8 hbm _ _ _ (by omega) (by omega))
      obtain ⟨x, hx, hxi⟩ := hi
      rcases List.mem_cons.mp hx with rfl | hx
      · exact ⟨x, by simp, hxi⟩
      rcases List.mem_cons.mp hx with rfl | hx
      · obtain ⟨y, ys, hy⟩ : ∃ y ys, absorb 16 nb post = y :: ys := by
          cases ha : absorb 16 nb post with
          | nil => exact absurd ha (absorb_ne_nil 16 nb post)
          | cons y ys => exact ⟨y, ys, rfl⟩
        have hya : y.addr = nb.addr := by
          have := nextAddr_absorb nb post; rw [hy] at this; exact this
        exact ⟨y, by rw [hc, hy]; simp, by rw [hya]; exact hxi⟩
      · exact ⟨x, by simp [hx], hxi⟩
    · rw [RelinkedBy, if_pos hs]
      exact hrel.congr (hflag h1.mem)
  · have hc : carve 16 4 n b post = { b with used := true } :: post := by simp [carve]; omega
    have hfu := setUsed_fwd true ht.2 hf
    have hsame8 : SameOn 0 (b.addr + 4) h.mem (store8 h.mem (b.addr + 12) (if true then 1 else 0)) :=
      sameOn_store8 (Or.inl (by omega))
    refine ⟨false, _, _, split_no h hf.1 hn (by omega), rfl, by rw [hc]; exact hfu, fun p hb _ => ?_, ?_, hsame8, ?_⟩
    · rw [hc]
      refine back_congr (fun x hx => sameOn_store8 ?_) (⟨hb.1, hb.2⟩ : Back h.mem p ({ b with used := true } :: post))
      rcases List.mem_cons.mp hx with rfl | hx
      · exact Or.inl (by simp only; omega)
      · have := (tiles_mem 16 ht.2 hx).1
        unfold Block.stop at this; exact Or.inr (by omega)
    · exact (edits_see hbm h (b.addr + 8) 4 (by omega) (by omega)).trans
        (edits_store8 hbm _ _ _ (by omega) (by omega))
    · rw [RelinkedBy, if_neg hs]
      exact hflag h.mem

/-- What `malloc` makes of a forward chain: first fit. The back links survive if nothing
    follows the block that is cut. -/
theorem malloc_spec {bs : List Block} {lo hi : Nat} (size : UInt32) (h : St) (ht : Tiles 16 lo bs hi)
    (hf : Fwd h.mem bs) (hne : bs ≠ []) (hhd : h.head = lo) (hpos : 0 < lo) (hhi : hi < 2 ^ 32)
    (hroom : hi + 4 < lo + 2 ^ 32) :
    ((∀ b ∈ bs, fits (align4 size.toNat) b = false) ∧
      ∃ h', malloc size h = some (0, h') ∧ h'.mem = h.mem ∧ Edits bs h h') ∨
    ∃ pre b post h', bs = pre ++ b :: post ∧ (∀ p ∈ pre, fits (align4 size.toNat) p = false) ∧
      fits (align4 size.toNat) b = true ∧ malloc size h = some (b.addr + 16, h') ∧
      Fwd h'.mem (pre ++ carve 16 4 (align4 size.toNat) b post) ∧
      (Back h.mem 0 bs → (align4 size.toNat + 20 < b.size → post = []) →
        Back h'.mem 0 (pre ++ carve 16 4 (align4 size.toNat) b post)) ∧
      Edits (bs ++ (pre ++ carve 16 4 (align4 size.toNat) b post)) h h' ∧
      SameOn 0 (b.addr + 4) h.mem h'.mem ∧ RelinkedBy h.mem h'.mem (align4 size.toNat) b post := by
  rcases find_spec (align4 size.toNat) h ht hf hne hhd hpos hhi with
    ⟨hno, h', e, hm, hed⟩ | ⟨pre, b, post, h1, rfl, hp, hb, e, hm, hed⟩
  · exact Or.inl ⟨hno, h', by simp [malloc, e], hm, hed⟩
  obtain ⟨htp, htb⟩ := (tiles_mid 16).mp ht
  have htb' : Tiles 16 b.addr (b :: post) hi := ⟨rfl, htb⟩
  have hle := tiles_le 16 htp
  have hle' := tiles_le 16 htb
  unfold Block.stop at hle'
  have hfit : align4 size.toNat ≤ b.size := by
    simp only [fits, Bool.and_eq_true, decide_eq_true_eq] at hb; exact hb.2
  have hfb : Fwd h1.mem (b :: post) := by rw [hm]; exact fwd_right hf
  obtain ⟨v, h2, h3, e2, e3, hf3, hb3, hed3, hsame, hrel⟩ :=
    handOut_spec h1 htb' hfb (by omega) hhi (by omega : align4 size.toNat + 20 < 2 ^ 32)
  rw [hm] at hsame hb3 hrel
  have hpre : ∀ p ∈ pre, p.addr + 16 ≤ b.addr := fun p hp => by
    have := (tiles_mem 16 htp hp).2
    unfold Block.stop at this; omega
  have hret : u32 (b.addr + 16) = b.addr + 16 := u32_of_lt (by omega)
  have hb0 : b.addr ≠ 0 := by omega
  have er : malloc size h = some (b.addr + 16, h3) := by
    simp only [setIsAllocated_apply, Option.some.injEq, Prod.mk.injEq, true_and] at e3
    simp [malloc, e, hb0, e2, hret, ← e3]
  refine Or.inr ⟨pre, b, post, h3, rfl, hp, hb, er, ?_, fun hbk hg => ?_, ?_, hsame, hrel⟩
  · refine fwd_append hf (fun p hp => hsame.mono (by omega) ?_) (nextAddr_carve _ _ _ _) hf3
    have := hpre p hp; omega
  · rw [back_append] at hbk ⊢
    refine ⟨back_congr (fun p hp => hsame.mono (by omega) ?_) hbk.1, hb3 _ hbk.2 hg⟩
    have := hpre p hp; omega
  · refine (hed.mono fun _ hi => hi.imp fun _ hx => ⟨List.mem_append_left _ hx.1, hx.2⟩).trans (hed3.mono ?_)
    rintro i ⟨x, hx, hi⟩
    refine ⟨x, ?_, hi⟩
    simp only [List.mem_append, List.mem_cons] at hx ⊢
    tauto

/-- A list as its forward links give it. -/
structure Chained (lo hi : Nat) (m : Mem) (bs : List Block) : Prop where
  tiles : Tiles 16 lo bs hi
  fwd : Fwd m bs

theorem Linked.chained {lo hi : Nat} {m : Mem} {bs : List Block} (hl : Linked lo hi m bs) : Chained lo hi m bs :=
  ⟨hl.tiles, hl.fwd⟩

/-- Merging inside a chained list. -/
theorem mergeAt_spec {pre post : List Block} {b : Block} {lo hi : Nat} (h : St)
    (hc : Chained lo hi h.mem (pre ++ b :: post)) (hpos : 0 < lo) (hhi : hi < 2 ^ 32) :
    ∃ v h', mergeNextMemorySpace b.addr h = some (v, h') ∧ Chained lo hi h'.mem (pre ++ absorb 16 b post) ∧
      (Back h.mem 0 (pre ++ b :: post) → Back h'.mem 0 (pre ++ absorb 16 b post)) ∧
      Edits (pre ++ b :: post) h h' ∧ SameOn 0 (b.addr + 4) h.mem h'.mem := by
  obtain ⟨htp, htb⟩ := (tiles_mid 16).mp hc.tiles
  have hle := tiles_le 16 htp
  obtain ⟨v, h', e, hf, hb, hed, hsame⟩ := merge_spec h ⟨rfl, htb⟩ (fwd_right hc.fwd) (by omega) hhi
  have hpre : ∀ p ∈ pre, p.addr + 16 ≤ b.addr := fun p hp => by
    have := (tiles_mem 16 htp hp).2
    unfold Block.stop at this; omega
  refine ⟨v, h', e, ⟨?_, ?_⟩, fun hback => ?_, hed.mono fun _ hi => hi.imp fun _ hx => ⟨List.mem_append_right _ hx.1, hx.2⟩, hsame⟩
  · exact (tiles_append 16).mpr ⟨b.addr, htp, tiles_absorb 16 htb⟩
  · refine fwd_append hc.fwd (fun p hp => hsame.mono (by omega) ?_) (nextAddr_absorb b post) hf
    have := hpre p hp; omega
  · have hback := back_append.mp hback
    refine back_append.mpr ⟨back_congr (fun p hp => hsame.mono (by omega) ?_) hback.1, hb _ hback.2⟩
    have := hpre p hp; omega

/-- Clearing the flag of one block of a chained list. -/
theorem setFree_chained {pre post : List Block} {b : Block} {lo hi : Nat} {m : Mem}
    (hc : Chained lo hi m (pre ++ b :: post)) :
    Chained lo hi (store8 m (b.addr + 12) 0) (pre ++ { b with used := false } :: post) ∧
      (Back m 0 (pre ++ b :: post) → Back (store8 m (b.addr + 12) 0) 0 (pre ++ { b with used := false } :: post)) := by
  obtain ⟨htp, htb⟩ := (tiles_mid 16).mp hc.tiles
  have hout : ∀ p ∈ pre, p.addr + 16 ≤ b.addr := fun p hp => by
    have := (tiles_mem 16 htp hp).2
    unfold Block.stop at this; omega
  have hpost : ∀ x ∈ post, b.addr + 16 ≤ x.addr := fun x hx => by
    have := (tiles_mem 16 htb hx).1
    unfold Block.stop at this; omega
  refine ⟨⟨(tiles_mid 16).mpr ⟨htp, htb⟩, ?_⟩, fun hback => ?_⟩
  · refine fwd_append hc.fwd (fun p hp => sameOn_store8 ?_) rfl (setUsed_fwd false htb (fwd_right hc.fwd))
    have := hout p hp; omega
  · have hb := back_append.mp hback
    have hb' : Back m (lastAddr 0 pre) ({ b with used := false } :: post) := ⟨hb.2.1, hb.2.2⟩
    refine back_congr (fun x hx => sameOn_store8 ?_) (back_append.mpr ⟨hb.1, hb'⟩)
    rcases List.mem_append.mp hx with hx | hx
    · have := hout x hx; omega
    rcases List.mem_cons.mp hx with rfl | hx
    · simp only; omega
    · have := hpost x hx; omega

/-- A block in front of another run keeps its flag in its header. -/
theorem front_flag {l r xs : List Block} {c : Block} {m : Mem} (hf : Fwd m (l ++ c :: r ++ xs)) :
    (m (c.addr + 12) != 0) = c.used := by
  rw [List.append_assoc] at hf
  exact (fwd_right hf).1.2.2

section
variable {pre post : List Block} {b : Block} {lo hi : Nat} (h : St) (hc : Chained lo hi h.mem (pre ++ b :: post))
  (hpos : 0 < lo) (hhi : hi < 2 ^ 32)
include hc hpos hhi

/-- `free` up to the look at `prev`: the block is free and has taken in its successor. -/
theorem free_opens : ∃ h2, Chained lo hi h2.mem (pre ++ absorb 16 { b with used := false } post) ∧
    (Back h.mem 0 (pre ++ b :: post) → Back h2.mem 0 (pre ++ absorb 16 { b with used := false } post)) ∧
    Edits (pre ++ b :: post) h h2 ∧ load32 h2.mem b.addr = load32 h.mem b.addr ∧
    free (b.addr + 16) h =
      let prev := load32 h2.mem b.addr
      if prev = 0 then some ((), h2.see b.addr 4)
      else if h2.mem (prev + 12) != 0 then some ((), (h2.see b.addr 4).see (prev + 12) 1)
      else (mergeNextMemorySpace prev ((h2.see b.addr 4).see (prev + 12) 1)).bind fun r => some ((), r.2) := by
  have hbm : b ∈ pre ++ b :: post := by simp
  have hmem := tiles_mem 16 hc.tiles hbm
  unfold Block.stop at hmem
  have hsp : sub32 (b.addr + 16) 16 = b.addr := by rw [sub32_of_le (by omega) (by omega)]; omega
  have sameHdr : ∀ i, InHeader (pre ++ { b with used := false } :: post) i → InHeader (pre ++ b :: post) i := by
    rintro i ⟨x, hx, hi⟩
    simp only [List.mem_append, List.mem_cons] at hx
    rcases hx with hx | rfl | hx
    · exact ⟨x, by simp [hx], hi⟩
    · exact ⟨b, hbm, hi⟩
    · exact ⟨x, by simp [hx], hi⟩
  have t1 := edits_store8 hbm h (b.addr + 12) 0 (by omega) (by omega)
  obtain ⟨hc1, hb1⟩ := setFree_chained hc
  obtain ⟨v, h2, e2, hc2, hb2, t2, hsame⟩ :=
    mergeAt_spec { h with mem := store8 h.mem (b.addr + 12) 0 } hc1 hpos hhi
  refine ⟨h2, hc2, fun hback => hb2 (hb1 hback), t1.trans (t2.mono sameHdr), ?_, ?_⟩
  · rw [load32_congr (hsame.mono (Nat.zero_le _) (by simp only; omega))]
    exact load32_store8_ne (Or.inr (by omega))
  · have e2' : mergeNextMemorySpace b.addr { h with mem := store8 h.mem (b.addr + 12) 0 } = some (v, h2) := e2
    simp only [free, if_neg (show b.addr + 16 ≠ 0 by omega), hsp, bind_apply, setIsAllocated_apply, Option.bind_some,
      Bool.false_eq_true, if_false, e2', getPrev_apply]
    by_cases h0 : load32 h2.mem b.addr = 0
    · rw [if_pos h0, if_pos h0]; rfl
    rw [if_neg h0, if_neg h0]
    simp only [bind_apply, getIsAllocated_apply, Option.bind_some, see_mem]
    split <;> rfl

/-- `free` with nothing to join in front: `prev` is NULL or a block in use. -/
theorem free_alone (hp : load32 h.mem b.addr = 0 ∨ ∃ c ∈ pre, c.used = true ∧ load32 h.mem b.addr = c.addr) :
    ∃ h', free (b.addr + 16) h = some ((), h') ∧ Chained lo hi h'.mem (pre ++ absorb 16 { b with used := false } post) ∧
      (Back h.mem 0 (pre ++ b :: post) → Back h'.mem 0 (pre ++ absorb 16 { b with used := false } post)) ∧
      Edits (pre ++ b :: post) h h' := by
  obtain ⟨h2, hc2, hb2, t2, hprev, e⟩ := free_opens h hc hpos hhi
  have hbm : b ∈ pre ++ b :: post := by simp
  have t3 := t2.trans (edits_see hbm _ b.addr 4 (by omega) (by omega))
  rw [← hprev] at hp
  by_cases h0 : load32 h2.mem b.addr = 0
  · refine ⟨h2.see b.addr 4, ?_, hc2, hb2, t3⟩
    rw [e]
    exact if_pos h0
  · obtain ⟨c, hcm, hu, hpc⟩ := hp.resolve_left h0
    obtain ⟨l, r, rfl⟩ := List.append_of_mem hcm
    have hflag := front_flag hc2.fwd
    rw [hu, ← hpc] at hflag
    have hca : c ∈ l ++ c :: r ++ b :: post := by simp
    refine ⟨(h2.see b.addr 4).see (load32 h2.mem b.addr + 12) 1, ?_, hc2, hb2, t3.trans (edits_see hca _ _ 1 ?_ ?_)⟩
    · rw [e]
      exact (if_neg h0).trans (if_pos hflag)
    · rw [hpc]; omega
    · rw [hpc]; omega

/-- `free` of a block whose `prev` is a free block in front of it: that block takes in what follows it. -/
theorem free_joins {l r : List Block} {c : Block} (hpre : pre = l ++ c :: r) (hu : c.used = false)
    (hp : load32 h.mem b.addr = c.addr) :
    ∃ h', free (b.addr + 16) h = some ((), h') ∧
      Chained lo hi h'.mem (l ++ absorb 16 c (r ++ absorb 16 { b with used := false } post)) ∧
      (Back h.mem 0 (pre ++ b :: post) → Back h'.mem 0 (l ++ absorb 16 c (r ++ absorb 16 { b with used := false } post))) ∧
      Edits (pre ++ b :: post) h h' := by
  obtain ⟨h2, hc2, hb2, t2, hprev, e⟩ := free_opens h hc hpos hhi
  subst hpre
  have hbm : b ∈ l ++ c :: r ++ b :: post := by simp
  have hcm : c ∈ l ++ c :: r ++ b :: post := by simp
  have hca := (tiles_mem 16 hc.tiles hcm).1
  have hflag := front_flag hc2.fwd
  rw [hu, ← hp, ← hprev] at hflag
  rw [← hprev] at hp
  have t3 := t2.trans (edits_see hbm _ b.addr 4 (by omega) (by omega))
  have t4 := t3.trans (edits_see hcm _ (load32 h2.mem b.addr + 12) 1 (by omega) (by omega))
  have hassoc : l ++ c :: r ++ absorb 16 { b with used := false } post =
      l ++ c :: (r ++ absorb 16 { b with used := false } post) := by simp
  rw [hassoc] at hc2 hb2
  obtain ⟨v, h3, e3, hc3, hb3, t5, -⟩ :=
    mergeAt_spec ((h2.see b.addr 4).see (load32 h2.mem b.addr + 12) 1) hc2 hpos hhi
  refine ⟨h3, ?_, hc3, fun hback => hb3 (hb2 hback), t4.trans (t5.mono fun i hi => ?_)⟩
  · rw [e]
    refine (if_neg (by omega)).trans ((if_neg (by simp [hflag])).trans ?_)
    rw [← hp] at e3
    rw [e3]; rfl
  · obtain ⟨x, hx, hi⟩ := hi
    simp only [List.mem_append, List.mem_cons] at hx
    rcases hx with hx | rfl | hx | hx
    · exact ⟨x, by simp [hx], hi⟩
    · exact ⟨x, hcm, hi⟩
    · exact ⟨x, by simp [hx], hi⟩
    · rcases mem_absorb 16 hx with hx | hx
      · exact ⟨b, hbm, by rw [hx] at hi; exact hi⟩
      · exact ⟨x, by simp [hx], hi⟩

end

/-- `free` of a block of a well-formed list joins it with whatever free neighbours it has. -/
theorem free_spec {pre post : List Block} {b : Block} {lo hi : Nat} (h : St)
    (hl : Linked lo hi h.mem (pre ++ b :: post)) (hpos : 0 < lo) (hhi : hi < 2 ^ 32) :
    ∃ h', free (b.addr + 16) h = some ((), h') ∧
      Linked lo hi h'.mem (joinBack 16 pre (absorb 16 { b with used := false } post)) ∧
      Edits (pre ++ b :: post) h h' := by
  have hprev : load32 h.mem b.addr = lastAddr 0 pre := (back_append.mp hl.back).2.1
  rcases List.eq_nil_or_concat' pre with rfl | ⟨l, p, rfl⟩
  · -- the first block has nothing to join in front
    obtain ⟨h', e, hc, hb, hed⟩ := free_alone h hl.chained hpos hhi (Or.inl hprev)
    exact ⟨h', e, ⟨hc.tiles, hc.fwd, hb hl.back⟩, hed⟩
  rw [lastAddr_snoc] at hprev
  rw [joinBack_snoc]
  by_cases hu : p.used = true
  · obtain ⟨h', e, hc, hb, hed⟩ := free_alone h hl.chained hpos hhi (Or.inr ⟨p, by simp, hu, hprev⟩)
    have hback := hb hl.back
    rw [List.append_assoc, List.singleton_append] at hc hback
    rw [if_pos hu]
    exact ⟨h', e, ⟨hc.tiles, hc.fwd, hback⟩, hed⟩
  · obtain ⟨h', e, hc, hb, hed⟩ := free_joins (r := []) h hl.chained hpos hhi rfl (by simpa using hu) hprev
    rw [List.nil_append] at hc hb
    rw [if_neg hu]
    exact ⟨h', e, ⟨hc.tiles, hc.fwd, hb hl.back⟩, hed⟩

end OpenGpos.Libc.Heap
