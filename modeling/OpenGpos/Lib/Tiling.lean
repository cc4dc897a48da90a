/-
  OpenGpos.Lib.Tiling — a region cut into blocks, each a header of `hdr` bytes followed
  by `size` bytes, each free or used: what a first-fit allocator with immediate
  coalescing does to such a list, without any memory under it.

  - `absorb`: a block takes in its successor when that one is free.
  - `carve`: a free block is handed out, cut to size when enough is left over.
  - `takeFirst`: first fit over the list.
  - `joinBack`: the block before a run takes in the run's head when both are free.
  Each keeps the tiling (`tiles_*`) and, where the list had no two adjacent free blocks,
  leaves none (`packed_*`). A packed tiling with nothing in use is one block
  (`packed_all_free`).
-/
import Mathlib

namespace OpenGpos.Lib.Tiling

structure Block where
  addr : Nat
  size : Nat
  used : Bool
  deriving DecidableEq, Repr

variable (hdr : Nat)

/-- Just past the block. -/
def Block.stop (b : Block) : Nat := b.addr + hdr + b.size

/-- `bs` tiles `[lo, hi)`: each block starts where the one before stops. -/
def Tiles : Nat → List Block → Nat → Prop
  | lo, [], hi => lo = hi
  | lo, b :: bs, hi => b.addr = lo ∧ Tiles (b.stop hdr) bs hi

/-- No two adjacent blocks are free. -/
def Packed (bs : List Block) : Prop := bs.IsChain fun b c => b.used = true ∨ c.used = true

def absorb (b : Block) : List Block → List Block
  | c :: bs => if c.used then b :: c :: bs else { b with size := b.size + hdr + c.size } :: bs
  | [] => [b]

/-- Hand `b` out for `n` bytes, with `post` behind it: cut it when more than `slack`
    bytes would be left beside a header. -/
def carve (slack n : Nat) (b : Block) (post : List Block) : List Block :=
  if n + hdr + slack < b.size then
    { b with size := n, used := true } :: absorb hdr ⟨b.addr + hdr + n, b.size - n - hdr, false⟩ post
  else { b with used := true } :: post

def fits (n : Nat) (b : Block) : Bool := !b.used && decide (n ≤ b.size)

/-- First fit. -/
def takeFirst (slack n : Nat) : List Block → List Block
  | [] => []
  | b :: bs => if fits n b then carve hdr slack n b bs else b :: takeFirst slack n bs

def joinBack : List Block → List Block → List Block
  | [], xs => xs
  | [p], xs => if p.used then p :: xs else absorb hdr p xs
  | p :: q :: ps, xs => p :: joinBack (q :: ps) xs

theorem joinBack_snoc (pre : List Block) (p : Block) (xs : List Block) :
    joinBack hdr (pre ++ [p]) xs = pre ++ if p.used then p :: xs else absorb hdr p xs := by
  induction pre with
  | nil => rfl
  | cons q pre ih => cases pre <;> simp_all [joinBack]

/-- First fit picks the first block that fits. -/
theorem takeFirst_mid {slack n : Nat} {pre post : List Block} {b : Block} (hp : ∀ p ∈ pre, fits n p = false)
    (hb : fits n b = true) : takeFirst hdr slack n (pre ++ b :: post) = pre ++ carve hdr slack n b post := by
  induction pre with
  | nil => simp [takeFirst, hb]
  | cons p pre ih =>
    have h1 := hp p (by simp)
    simp [takeFirst, h1, ih fun q hq => hp q (by simp [hq])]

/-- There is only one first block that fits. -/
theorem firstFit_unique {n : Nat} {pre pre' post post' : List Block} {b b' : Block}
    (e : pre ++ b :: post = pre' ++ b' :: post') (hp : ∀ p ∈ pre, fits n p = false) (hb : fits n b = true)
    (hp' : ∀ p ∈ pre', fits n p = false) (hb' : fits n b' = true) : b = b' ∧ post = post' := by
  induction pre generalizing pre' with
  | nil =>
    cases pre' with
    | nil => simpa using e
    | cons q pre' =>
      simp only [List.nil_append, List.cons_append, List.cons.injEq] at e
      rw [e.1, hp' q (by simp)] at hb; cases hb
  | cons q pre ih =>
    cases pre' with
    | nil =>
      simp only [List.nil_append, List.cons_append, List.cons.injEq] at e
      rw [← e.1, hp q (by simp)] at hb'; cases hb'
    | cons q' pre' =>
      simp only [List.cons_append, List.cons.injEq] at e
      exact ih e.2 (fun p h => hp p (by simp [h])) (fun p h => hp' p (by simp [h]))

theorem takeFirst_none {slack n : Nat} {bs : List Block} (h : ∀ b ∈ bs, fits n b = false) :
    takeFirst hdr slack n bs = bs := by
  induction bs with
  | nil => rfl
  | cons b bs ih => simp [takeFirst, h b (by simp), ih fun c hc => h c (by simp [hc])]

/-! ## Tilings -/

theorem tiles_append {lo hi : Nat} {xs ys : List Block} :
    Tiles hdr lo (xs ++ ys) hi ↔ ∃ mid, Tiles hdr lo xs mid ∧ Tiles hdr mid ys hi := by
  induction xs generalizing lo with
  | nil => simp [Tiles]
  | cons b bs ih =>
    simp only [List.cons_append, Tiles, ih]
    constructor
    · rintro ⟨h, mid, h1, h2⟩; exact ⟨mid, ⟨h, h1⟩, h2⟩
    · rintro ⟨mid, ⟨h, h1⟩, h2⟩; exact ⟨h, mid, h1, h2⟩

theorem tiles_le {lo hi : Nat} {bs : List Block} (h : Tiles hdr lo bs hi) : lo ≤ hi := by
  induction bs generalizing lo with
  | nil => exact Nat.le_of_eq h
  | cons b bs ih =>
    obtain ⟨h1, h2⟩ := h
    have := ih h2
    unfold Block.stop at this; omega

/-- Cut a tiling at one of its blocks. -/
theorem tiles_mid {lo hi : Nat} {pre post : List Block} {b : Block} :
    Tiles hdr lo (pre ++ b :: post) hi ↔ Tiles hdr lo pre b.addr ∧ Tiles hdr (b.stop hdr) post hi := by
  rw [tiles_append]
  constructor
  · rintro ⟨mid, h1, rfl, h2⟩; exact ⟨h1, h2⟩
  · rintro ⟨h1, h2⟩; exact ⟨b.addr, h1, rfl, h2⟩

/-- A block of a tiling lies inside the region. -/
theorem tiles_mem {lo hi : Nat} {bs : List Block} (h : Tiles hdr lo bs hi) {b : Block} (hb : b ∈ bs) :
    lo ≤ b.addr ∧ b.stop hdr ≤ hi := by
  obtain ⟨pre, post, rfl⟩ := List.append_of_mem hb
  obtain ⟨h1, h2⟩ := (tiles_mid hdr).mp h
  exact ⟨tiles_le hdr h1, tiles_le hdr h2⟩

/-- Where a list is cut at two different elements, one cut is in front of the other. -/
theorem mid_or_mid {α : Type} {pre post pre' post' : List α} {b c : α} (hne : b ≠ c)
    (e : pre ++ b :: post = pre' ++ c :: post') :
    (∃ t, pre = pre' ++ c :: t ∧ post' = t ++ b :: post) ∨ ∃ t, pre' = pre ++ b :: t ∧ post = t ++ c :: post' := by
  rcases List.append_eq_append_iff.mp e with ⟨t, h1, h2⟩ | ⟨t, h1, h2⟩
  · cases t with
    | nil => exact absurd (List.cons.inj h2).1 hne
    | cons d t =>
      obtain ⟨rfl, h3⟩ := List.cons.inj h2
      exact Or.inr ⟨t, h1, h3⟩
  · cases t with
    | nil => exact absurd (List.cons.inj h2).1.symm hne
    | cons d t =>
      obtain ⟨rfl, h3⟩ := List.cons.inj h2
      exact Or.inl ⟨t, h1, h3⟩

/-- Two blocks of a tiling are the same block or one lies wholly before the other. -/
theorem tiles_apart {lo hi : Nat} {bs : List Block} (h : Tiles hdr lo bs hi) {b c : Block} (hb : b ∈ bs)
    (hc : c ∈ bs) : b = c ∨ b.stop hdr ≤ c.addr ∨ c.stop hdr ≤ b.addr := by
  obtain ⟨pre, post, rfl⟩ := List.append_of_mem hb
  obtain ⟨h1, h2⟩ := (tiles_mid hdr).mp h
  rcases List.mem_append.mp hc with hc | hc
  · exact Or.inr (Or.inr (tiles_mem hdr h1 hc).2)
  · rcases List.mem_cons.mp hc with rfl | hc
    · exact Or.inl rfl
    · exact Or.inr (Or.inl (tiles_mem hdr h2 hc).1)

theorem tiles_unique {lo hi : Nat} {bs : List Block} (hh : 0 < hdr) (h : Tiles hdr lo bs hi) {b c : Block}
    (hb : b ∈ bs) (hc : c ∈ bs) (he : b.addr = c.addr) : b = c := by
  rcases tiles_apart hdr h hb hc with e | e | e
  · exact e
  · unfold Block.stop at e; omega
  · unfold Block.stop at e; omega

/-- The sizes and the headers add up to the region. -/
theorem tiles_sum {lo hi : Nat} {bs : List Block} (h : Tiles hdr lo bs hi) :
    lo + (bs.map fun b => hdr + b.size).sum = hi := by
  induction bs generalizing lo with
  | nil => simpa [Tiles] using h
  | cons b bs ih =>
    obtain ⟨rfl, h⟩ := h
    have := ih h
    simp only [List.map_cons, List.sum_cons, Block.stop] at *
    omega

/-- There is room for no more than one block per header. -/
theorem tiles_length {lo hi : Nat} {bs : List Block} (h : Tiles hdr lo bs hi) : lo + hdr * bs.length ≤ hi := by
  induction bs generalizing lo with
  | nil => exact Nat.le_of_eq (by simpa [Tiles] using h)
  | cons b bs ih =>
    obtain ⟨rfl, h⟩ := h
    have := ih h
    simp only [List.length_cons, Block.stop, Nat.mul_succ] at *
    omega

theorem tiles_absorb {hi : Nat} {b : Block} {post : List Block} (h : Tiles hdr (b.stop hdr) post hi) :
    Tiles hdr b.addr (absorb hdr b post) hi := by
  cases post with
  | nil => exact ⟨rfl, h⟩
  | cons c post =>
    obtain ⟨hc, h⟩ := h
    simp only [absorb]
    split
    · exact ⟨rfl, hc, h⟩
    · refine ⟨rfl, ?_⟩
      have : Block.stop hdr { b with size := b.size + hdr + c.size } = c.stop hdr := by
        unfold Block.stop at *; simp only; omega
      rwa [this]

theorem tiles_carve {hi slack n : Nat} {b : Block} {post : List Block} (h : Tiles hdr (b.stop hdr) post hi) :
    Tiles hdr b.addr (carve hdr slack n b post) hi := by
  unfold carve
  split
  · have he : Block.stop hdr ⟨b.addr + hdr + n, b.size - n - hdr, false⟩ = b.stop hdr := by
      unfold Block.stop; simp only; omega
    rw [← he] at h
    exact ⟨rfl, tiles_absorb hdr h⟩
  · exact ⟨rfl, h⟩

/-! ## No two adjacent free blocks -/

theorem packed_mid {pre post : List Block} {b : Block} :
    Packed (pre ++ b :: post) ↔ Packed pre ∧ Packed post ∧ (∀ p ∈ pre.getLast?, p.used = true ∨ b.used = true) ∧
      ∀ c ∈ post.head?, b.used = true ∨ c.used = true := by
  unfold Packed
  rw [List.isChain_append, List.isChain_cons]
  simp only [List.head?_cons, Option.mem_def, Option.some.injEq, forall_eq']
  tauto

/-- A used block may stand anywhere between packed runs. -/
theorem packed_used {pre post : List Block} {b : Block} (h1 : Packed pre) (h2 : Packed post) (hb : b.used = true) :
    Packed (pre ++ b :: post) :=
  packed_mid.mpr ⟨h1, h2, fun _ _ => Or.inr hb, fun _ _ => Or.inl hb⟩

theorem absorb_ne_nil (b : Block) (post : List Block) : absorb hdr b post ≠ [] := by
  unfold absorb
  split
  · split <;> simp
  · simp

theorem mem_absorb {b x : Block} {post : List Block} (h : x ∈ absorb hdr b post) : x.addr = b.addr ∨ x ∈ post := by
  unfold absorb at h
  split at h
  · split at h
    · simp at h; rcases h with rfl | h <;> simp_all
    · simp at h; rcases h with rfl | h <;> simp_all
  · simp at h; exact Or.inl (by rw [h])

theorem head_absorb {b : Block} {post : List Block} {c : Block} (h : c ∈ (absorb hdr b post).head?) :
    c.used = b.used := by
  unfold absorb at h
  split at h
  · split at h <;> (simp at h; subst h; rfl)
  · simp at h; subst h; rfl

/-- Absorbing leaves no free pair behind the block. -/
theorem packed_absorb {b : Block} {post : List Block} (h : Packed post) : Packed (absorb hdr b post) := by
  unfold absorb
  split
  · rename_i c bs
    split
    · rename_i hc
      exact List.isChain_cons_cons.mpr ⟨Or.inr hc, h⟩
    · rename_i hc
      refine List.isChain_cons.mpr ⟨fun y hy => ?_, (List.isChain_cons.mp h).2⟩
      rcases (List.isChain_cons.mp h).1 y hy with h' | h'
      · exact absurd h' hc
      · exact Or.inr h'
  · exact List.isChain_singleton _

theorem packed_carve {slack n : Nat} {b : Block} {pre post : List Block} (h : Packed (pre ++ b :: post)) :
    Packed (pre ++ carve hdr slack n b post) := by
  obtain ⟨h1, h2, -, -⟩ := packed_mid.mp h
  unfold carve
  split
  · exact packed_used h1 (packed_absorb hdr h2) rfl
  · exact packed_used h1 h2 rfl

/-- Freeing `b` between packed runs, then joining both ways, leaves a packed list. -/
theorem packed_free {b : Block} {pre post : List Block} (h1 : Packed pre) (h2 : Packed post) :
    Packed (joinBack hdr pre (absorb hdr b post)) := by
  have ha : Packed (absorb hdr b post) := packed_absorb hdr h2
  induction pre with
  | nil => exact ha
  | cons p pre ih =>
    cases pre with
    | nil =>
      unfold joinBack
      split
      · rename_i hp
        exact List.isChain_cons.mpr ⟨fun _ _ => Or.inl hp, ha⟩
      · exact packed_absorb hdr ha
    | cons q ps =>
      obtain ⟨hpq, hq⟩ := List.isChain_cons_cons.mp h1
      refine List.isChain_cons.mpr ⟨fun y hy => ?_, ih hq⟩
      have : y.used = q.used := by
        cases ps with
        | nil =>
          unfold joinBack at hy
          split at hy
          · simp at hy; rw [← hy]
          · exact head_absorb hdr hy
        | cons r rs => simp [joinBack] at hy; rw [← hy]
      rw [this]; exact hpq

/-- What freeing `b` between `pre` and `post` is to leave: one free block over `b` and its free
    neighbours, headers included, and everything else as it was. -/
def Coalesced (pre : List Block) (b : Block) (post bs' : List Block) : Prop :=
  ∃ left l f r right, pre = left ++ l ∧ post = r ++ right ∧ l.length ≤ 1 ∧ r.length ≤ 1 ∧
    (∀ x ∈ l ++ r, x.used = false) ∧ (∀ x ∈ left.getLast?, x.used = true) ∧ (∀ x ∈ right.head?, x.used = true) ∧
    bs' = left ++ f :: right ∧ f.used = false ∧ Tiles hdr f.addr (l ++ b :: r) (f.stop hdr)

theorem absorb_run {hi : Nat} {b : Block} {post : List Block} (ht : Tiles hdr (b.stop hdr) post hi) (hp : Packed post) :
    ∃ f r right, post = r ++ right ∧ r.length ≤ 1 ∧ (∀ x ∈ r, x.used = false) ∧ (∀ x ∈ right.head?, x.used = true) ∧
      absorb hdr b post = f :: right ∧ f.used = b.used ∧ f.addr = b.addr ∧ Tiles hdr b.addr (b :: r) (f.stop hdr) := by
  cases post with
  | nil => exact ⟨b, [], [], rfl, by simp, by simp, by simp, rfl, rfl, rfl, rfl, rfl⟩
  | cons c tl =>
    by_cases hu : c.used = true
    · exact ⟨b, [], c :: tl, rfl, by simp, by simp, by simpa using hu, by rw [absorb, if_pos hu], rfl, rfl, rfl, rfl⟩
    · have hu' : c.used = false := by simpa using hu
      refine ⟨{ b with size := b.size + hdr + c.size }, [c], tl, rfl, by simp, by simpa using hu', fun x hx => ?_,
        by rw [absorb, if_neg hu], rfl, rfl, rfl, ht.1, ?_⟩
      · exact ((List.isChain_cons.mp hp).1 x hx).resolve_left hu
      · have hc := ht.1
        unfold Tiles Block.stop at *
        simp only at *
        omega

theorem joinBack_coalesced {lo hi : Nat} {b : Block} {pre post : List Block} (ht : Tiles hdr lo (pre ++ b :: post) hi)
    (h1 : Packed pre) (h2 : Packed post) :
    Coalesced hdr pre b post (joinBack hdr pre (absorb hdr { b with used := false } post)) := by
  obtain ⟨htp, htb⟩ := (tiles_mid hdr).mp ht
  obtain ⟨f, r, right, hpost, hr, hfree, hright, he, hu, haddr, htf⟩ := absorb_run hdr (b := { b with used := false }) htb h2
  have htf' : Tiles hdr b.addr (b :: r) (f.stop hdr) := htf
  have haddr' : f.addr = b.addr := haddr
  rw [he]
  rcases List.eq_nil_or_concat' pre with rfl | ⟨l, p, rfl⟩
  · refine ⟨[], [], f, r, right, rfl, hpost, by simp, hr, by simpa using hfree, by simp, hright, rfl, hu, ?_⟩
    rw [haddr']
    exact htf'
  rw [joinBack_snoc]
  by_cases hp : p.used = true
  · refine ⟨l ++ [p], [], f, r, right, by simp, hpost, by simp, hr, by simpa using hfree, by simpa using hp, hright, ?_, hu, ?_⟩
    · rw [if_pos hp, List.append_assoc]; rfl
    · rw [haddr']
      exact htf'
  · -- `p` takes in the block that was made behind it
    have hp' : p.used = false := by simpa using hp
    obtain ⟨-, -, -, hpb⟩ := (tiles_append hdr).mp htp
    have hpb' : p.stop hdr = b.addr := hpb
    have hstop : Block.stop hdr { p with size := p.size + hdr + f.size } = f.stop hdr := by
      unfold Block.stop at *
      simp only
      omega
    refine ⟨l, [p], { p with size := p.size + hdr + f.size }, r, right, rfl, hpost, by simp, hr, ?_, fun x hx => ?_,
      hright, ?_, hp', ?_⟩
    · intro x hx
      rcases List.mem_cons.mp hx with rfl | hx
      · exact hp'
      · exact hfree x hx
    · obtain ⟨-, -, hlast, -⟩ := packed_mid.mp h1
      exact (hlast x hx).resolve_right hp
    · rw [if_neg hp, absorb, if_neg (by rw [hu]; simp)]
    · rw [hstop]
      refine ⟨rfl, ?_⟩
      rw [hpb']
      exact htf'

/-- A packed list with nothing in use has at most one block. -/
theorem packed_all_free {bs : List Block} (h : Packed bs) (hf : ∀ b ∈ bs, b.used = false) : bs.length ≤ 1 := by
  match bs, h with
  | [], _ => simp
  | [_], _ => simp
  | b :: c :: _, h =>
    have hb := hf b (by simp)
    have hc := hf c (by simp)
    rcases (List.isChain_cons_cons.mp h).1 with h' | h' <;> simp_all

/-! ## The blocks in use -/

def inUse (bs : List Block) : List Block := bs.filter Block.used

/-- What `carve` makes of the block it hands out. -/
def handed (slack n : Nat) (b : Block) : Block :=
  if n + hdr + slack < b.size then { b with size := n, used := true } else { b with used := true }

theorem handed_spec (slack : Nat) {n : Nat} {b : Block} (h : n ≤ b.size) :
    (handed hdr slack n b).addr = b.addr ∧ (handed hdr slack n b).used = true ∧ n ≤ (handed hdr slack n b).size := by
  unfold handed
  split
  · exact ⟨rfl, rfl, Nat.le_refl n⟩
  · exact ⟨rfl, rfl, h⟩

theorem mem_inUse {bs : List Block} {b : Block} : b ∈ inUse bs ↔ b ∈ bs ∧ b.used = true := List.mem_filter

@[simp] theorem inUse_append (xs ys : List Block) : inUse (xs ++ ys) = inUse xs ++ inUse ys := List.filter_append ..

theorem inUse_cons_used {b : Block} (hb : b.used = true) (bs : List Block) : inUse (b :: bs) = b :: inUse bs :=
  List.filter_cons_of_pos hb

theorem inUse_cons_free {b : Block} (hb : b.used = false) (bs : List Block) : inUse (b :: bs) = inUse bs :=
  List.filter_cons_of_neg (by simp [hb])

theorem inUse_absorb {b : Block} (hb : b.used = false) (post : List Block) : inUse (absorb hdr b post) = inUse post := by
  unfold absorb
  split
  · rename_i c bs
    split
    · exact inUse_cons_free hb _
    · rename_i hc
      have hc' : c.used = false := by simpa using hc
      have hm : inUse ({ b with size := b.size + hdr + c.size } :: bs) = inUse bs :=
        List.filter_cons_of_neg (by simp [hb])
      rw [hm, inUse_cons_free hc']
  · exact inUse_cons_free hb _

theorem inUse_carve (slack n : Nat) (b : Block) (post : List Block) :
    inUse (carve hdr slack n b post) = handed hdr slack n b :: inUse post := by
  unfold carve handed
  split
  · rw [inUse_cons_used rfl, inUse_absorb hdr rfl]
  · exact inUse_cons_used rfl _

theorem inUse_joinBack (pre xs : List Block) : inUse (joinBack hdr pre xs) = inUse pre ++ inUse xs := by
  rcases List.eq_nil_or_concat' pre with rfl | ⟨pre, p, rfl⟩
  · rfl
  · rw [joinBack_snoc]
    cases hp : p.used with
    | true => simp [inUse_cons_used hp]; rfl
    | false => simp [inUse_absorb hdr hp, inUse_cons_free hp]; rfl

/-- The blocks in use beside `b`. -/
theorem mem_inUse_beside {lo hi : Nat} {pre post : List Block} {b x : Block} (hh : 0 < hdr)
    (ht : Tiles hdr lo (pre ++ b :: post) hi) (hu : b.used = true) :
    x ∈ inUse pre ++ inUse post ↔ x ∈ inUse (pre ++ b :: post) ∧ x ≠ b := by
  rw [inUse_append, inUse_cons_used hu, List.mem_append, List.mem_append, List.mem_cons]
  obtain ⟨h1, h2⟩ := (tiles_mid hdr).mp ht
  have hpre : x ∈ inUse pre → x ≠ b := by
    rintro hx rfl
    have := (tiles_mem hdr h1 (mem_inUse.mp hx).1).2
    unfold Block.stop at this
    omega
  have hpost : x ∈ inUse post → x ≠ b := by
    rintro hx rfl
    have := (tiles_mem hdr h2 (mem_inUse.mp hx).1).1
    unfold Block.stop at this
    omega
  tauto

/-- A byte of a header lies in no block's payload. -/
theorem header_apart {lo hi : Nat} {bs : List Block} (h : Tiles hdr lo bs hi) {b c : Block} (hb : b ∈ bs) (hc : c ∈ bs)
    {i : Nat} (h1 : b.addr ≤ i) (h2 : i < b.addr + hdr) : ¬ (c.addr + hdr ≤ i ∧ i < c.stop hdr) := by
  rintro ⟨h3, h4⟩
  rcases tiles_apart hdr h hb hc with rfl | e | e
  · omega
  · unfold Block.stop at e; omega
  · omega

end OpenGpos.Lib.Tiling
