/-
  OpenGpos.Libc.HeapRep — the block list in memory. `Fwd m bs` says the headers of `bs`
  chain through `next` with their sizes and flags; `Back m p bs` says each `prev` points
  at the block before. One spec lemma per routine of heap.c: what it makes of the list
  (`absorb`, `carve`, `joinBack` of `OpenGpos.Lib.Tiling`) and, with `Edits`, that it
  writes and reads nothing but headers.
-/
import OpenGpos.Lib.Tiling
import OpenGpos.Libc.Heap

namespace OpenGpos.Libc.Heap

open OpenGpos.Lib.Bytes OpenGpos.Lib.Tiling

/-! ## Running the monad -/

section
variable {α β : Type}

@[simp] theorem bind_apply (x : HeapM α) (f : α → HeapM β) (h : St) : (x >>= f) h = (x h).bind fun r => f r.1 r.2 := rfl
@[simp] theorem pure_apply (a : α) (h : St) : (pure a : HeapM α) h = some (a, h) := rfl
@[simp] theorem map_apply (f : α → β) (x : HeapM α) (h : St) : (f <$> x) h = (x h).bind fun r => some (f r.1, r.2) := rfl
@[simp] theorem get_apply (h : St) : (get : HeapM St) h = some (h, h) := rfl
@[simp] theorem modify_apply (f : St → St) (h : St) : (modify f : HeapM PUnit) h = some ((), f h) := rfl

end

@[simp] theorem getPrev_apply (p : Nat) (h : St) : getPrev p h = some (load32 h.mem p, h.see p 4) := rfl
@[simp] theorem getNext_apply (p : Nat) (h : St) : getNext p h = some (load32 h.mem (p + 4), h.see (p + 4) 4) := rfl
@[simp] theorem getSize_apply (p : Nat) (h : St) : getSize p h = some (load32 h.mem (p + 8), h.see (p + 8) 4) := rfl
@[simp] theorem getIsAllocated_apply (p : Nat) (h : St) :
    getIsAllocated p h = some (h.mem (p + 12) != 0, h.see (p + 12) 1) := rfl
@[simp] theorem setPrev_apply (p v : Nat) (h : St) :
    setPrev p v h = some ((), { h with mem := store32 h.mem p v }) := rfl
@[simp] theorem setNext_apply (p v : Nat) (h : St) :
    setNext p v h = some ((), { h with mem := store32 h.mem (p + 4) v }) := rfl
@[simp] theorem setSize_apply (p v : Nat) (h : St) :
    setSize p v h = some ((), { h with mem := store32 h.mem (p + 8) v }) := rfl
@[simp] theorem setIsAllocated_apply (p : Nat) (v : Bool) (h : St) :
    setIsAllocated p v h = some ((), { h with mem := store8 h.mem (p + 12) (if v then 1 else 0) }) := rfl

@[simp] theorem see_mem (h : St) (a n : Nat) : (h.see a n).mem = h.mem := rfl
@[simp] theorem see_head (h : St) (a n : Nat) : (h.see a n).head = h.head := rfl
@[simp] theorem see_reads (h : St) (a n : Nat) : (h.see a n).reads = (a, n) :: h.reads := rfl

theorem u32_of_lt {x : Nat} (h : x < 2 ^ 32) : u32 x = x := Nat.mod_eq_of_lt h

theorem sub32_of_le {a b : Nat} (h : b ≤ a) (ha : a < 2 ^ 32) : sub32 a b = a - b := by
  unfold sub32; omega

/-- Only the walk of `malloc` can go on forever. -/
theorem merge_returns (p : Nat) (h : St) : ∃ v h', mergeNextMemorySpace p h = some (v, h') := by
  unfold mergeNextMemorySpace
  simp only [bind_apply, getNext_apply, Option.bind_some]
  split
  · exact ⟨_, _, rfl⟩
  · simp only [bind_apply, getIsAllocated_apply, Option.bind_some]
    split
    · exact ⟨_, _, rfl⟩
    · simp only [bind_apply, getNext_apply, Option.bind_some]
      split
      · exact ⟨_, _, rfl⟩
      · exact ⟨_, _, rfl⟩

theorem free_returns (p : Nat) (h : St) : ∃ h', free p h = some ((), h') := by
  have join : ∀ q h1, ∃ h', (do
      let prev ← getPrev q
      if prev = 0 then return ()
      else if ← getIsAllocated prev then return ()
      else
        let _ ← mergeNextMemorySpace prev
        return () : HeapM Unit) h1 = some ((), h') := by
    intro q h1
    simp only [bind_apply, getPrev_apply, Option.bind_some]
    by_cases h0 : load32 h1.mem q = 0
    · exact ⟨_, by rw [if_pos h0]; rfl⟩
    rw [if_neg h0]
    simp only [bind_apply, getIsAllocated_apply, Option.bind_some]
    split
    · exact ⟨_, rfl⟩
    · obtain ⟨v, h2, e⟩ := merge_returns (load32 h1.mem q) ((h1.see q 4).see (load32 h1.mem q + 12) 1)
      exact ⟨h2, by simp only [bind_apply, e, Option.bind_some, pure_apply]⟩
  by_cases hp : p = 0
  · exact ⟨h, by simp [free, hp]⟩
  obtain ⟨q, hq⟩ : ∃ q, q = sub32 p 16 := ⟨_, rfl⟩
  obtain ⟨v, h1, e⟩ := merge_returns q { h with mem := store8 h.mem (q + 12) 0 }
  obtain ⟨h', e'⟩ := join q h1
  refine ⟨h', ?_⟩
  rw [← e']
  simp [free, hp, ← hq, e]

/-! ## The list in memory -/

/-- The header of `b`, with `next` pointing at `n`. -/
def Header (m : Mem) (b : Block) (n : Nat) : Prop :=
  load32 m (b.addr + 4) = n ∧ load32 m (b.addr + 8) = b.size ∧ (m (b.addr + 12) != 0) = b.used

/-- What `next` of the block before `bs` holds. -/
def nextAddr : List Block → Nat
  | [] => 0
  | b :: _ => b.addr

def Fwd (m : Mem) : List Block → Prop
  | [] => True
  | b :: bs => Header m b (nextAddr bs) ∧ Fwd m bs

def Back (m : Mem) : Nat → List Block → Prop
  | _, [] => True
  | p, b :: bs => load32 m b.addr = p ∧ Back m b.addr bs

theorem header_congr {m m' : Mem} {b : Block} {n : Nat} (h : SameOn (b.addr + 4) (b.addr + 16) m m')
    (hb : Header m b n) : Header m' b n := by
  obtain ⟨h1, h2, h3⟩ := hb
  refine ⟨?_, ?_, ?_⟩
  · rw [load32_congr (h.mono (by omega) (by omega)), h1]
  · rw [load32_congr (h.mono (by omega) (by omega)), h2]
  · rw [h (b.addr + 12) (by omega) (by omega), h3]

theorem fwd_congr {m m' : Mem} {bs : List Block} (h : ∀ b ∈ bs, SameOn (b.addr + 4) (b.addr + 16) m m')
    (hf : Fwd m bs) : Fwd m' bs := by
  induction bs with
  | nil => trivial
  | cons b bs ih =>
    exact ⟨header_congr (h b (by simp)) hf.1, ih (fun c hc => h c (by simp [hc])) hf.2⟩

theorem back_congr {m m' : Mem} {bs : List Block} (h : ∀ b ∈ bs, SameOn b.addr (b.addr + 4) m m') {p : Nat}
    (hb : Back m p bs) : Back m' p bs := by
  induction bs generalizing p with
  | nil => trivial
  | cons b bs ih =>
    refine ⟨?_, ih (fun c hc => h c (by simp [hc])) hb.2⟩
    rw [load32_congr (h b (by simp)), hb.1]

/-- Replace the tail of a chained list by one that starts at the same address. -/
theorem fwd_append {m m' : Mem} {pre xs ys : List Block} (h : Fwd m (pre ++ xs))
    (hp : ∀ p ∈ pre, SameOn (p.addr + 4) (p.addr + 16) m m') (hn : nextAddr ys = nextAddr xs) (hy : Fwd m' ys) :
    Fwd m' (pre ++ ys) := by
  induction pre with
  | nil => exact hy
  | cons p pre ih =>
    simp only [List.cons_append, Fwd] at h ⊢
    refine ⟨?_, ih h.2 fun q hq => hp q (by simp [hq])⟩
    have : nextAddr (pre ++ ys) = nextAddr (pre ++ xs) := by
      cases pre with
      | nil => exact hn
      | cons _ _ => rfl
    rw [this]; exact header_congr (hp p (by simp)) h.1

theorem fwd_right {m : Mem} {pre xs : List Block} (h : Fwd m (pre ++ xs)) : Fwd m xs := by
  induction pre with
  | nil => exact h
  | cons p pre ih => exact ih h.2

/-- The address `prev` of the block after `pre` holds. -/
def lastAddr : Nat → List Block → Nat
  | p, [] => p
  | _, b :: bs => lastAddr b.addr bs

@[simp] theorem lastAddr_snoc (p : Nat) (pre : List Block) (b : Block) : lastAddr p (pre ++ [b]) = b.addr := by
  induction pre generalizing p with
  | nil => rfl
  | cons q pre ih => exact ih q.addr

theorem back_append {m : Mem} {pre xs : List Block} {p : Nat} :
    Back m p (pre ++ xs) ↔ Back m p pre ∧ Back m (lastAddr p pre) xs := by
  induction pre generalizing p with
  | nil => simp [Back, lastAddr]
  | cons q pre ih => simp only [List.cons_append, Back, lastAddr, ih, and_assoc]

@[simp] theorem nextAddr_absorb (b : Block) (post : List Block) : nextAddr (absorb 16 b post) = b.addr := by
  unfold absorb
  split
  · split <;> rfl
  · rfl

@[simp] theorem nextAddr_carve (slack n : Nat) (b : Block) (post : List Block) :
    nextAddr (carve 16 slack n b post) = b.addr := by
  unfold carve
  split <;> rfl

/-! ## Calls that touch headers only -/

/-- `a` lies in the header of a block of `bs`. -/
def InHeader (bs : List Block) (a : Nat) : Prop := ∃ b ∈ bs, b.addr ≤ a ∧ a < b.addr + 16

/-- From `h` to `h'` only header bytes of `bs` were written and read. -/
structure Edits (bs : List Block) (h h' : St) : Prop where
  head : h'.head = h.head
  mem : ∀ i, ¬ InHeader bs i → h'.mem i = h.mem i
  reads : ∃ r, h'.reads = r ++ h.reads ∧ ∀ x ∈ r, ∀ i, x.1 ≤ i → i < x.1 + x.2 → InHeader bs i

theorem Edits.refl (bs : List Block) (h : St) : Edits bs h h :=
  ⟨rfl, fun _ _ => rfl, [], rfl, fun _ hx => by cases hx⟩

theorem Edits.trans {bs : List Block} {h h' h'' : St} (a : Edits bs h h') (b : Edits bs h' h'') : Edits bs h h'' := by
  obtain ⟨r, hr, hr'⟩ := a.reads
  obtain ⟨s, hs, hs'⟩ := b.reads
  refine ⟨b.head.trans a.head, fun i hi => (b.mem i hi).trans (a.mem i hi), s ++ r, ?_, fun x hx => ?_⟩
  · rw [hs, hr, List.append_assoc]
  · rcases List.mem_append.mp hx with hx | hx
    · exact hs' x hx
    · exact hr' x hx

theorem Edits.mono {bs cs : List Block} {h h' : St} (a : Edits bs h h') (hs : ∀ i, InHeader bs i → InHeader cs i) :
    Edits cs h h' := by
  obtain ⟨r, hr, hr'⟩ := a.reads
  exact ⟨a.head, fun i hi => a.mem i fun hb => hi (hs i hb), r, hr, fun x hx i h1 h2 => hs i (hr' x hx i h1 h2)⟩

theorem inHeader_of_mem {bs : List Block} {b : Block} (hb : b ∈ bs) {i : Nat} (h1 : b.addr ≤ i) (h2 : i < b.addr + 16) :
    InHeader bs i := ⟨b, hb, h1, h2⟩

variable {bs : List Block} {b : Block} (hb : b ∈ bs) (h : St)
include hb

theorem edits_see (a n : Nat) (h1 : b.addr ≤ a) (h2 : a + n ≤ b.addr + 16) : Edits bs h (h.see a n) := by
  refine ⟨rfl, fun _ _ => rfl, [(a, n)], rfl, fun x hx i hi hi' => ?_⟩
  simp only [List.mem_singleton] at hx
  subst hx
  exact inHeader_of_mem hb (by simp only at hi; omega) (by simp only at hi'; omega)

theorem edits_store32 (a v : Nat) (h1 : b.addr ≤ a) (h2 : a + 4 ≤ b.addr + 16) :
    Edits bs h { h with mem := store32 h.mem a v } := by
  refine ⟨rfl, fun i hi => store32_out ?_, [], rfl, fun _ hx => by cases hx⟩
  by_contra hc
  exact hi (inHeader_of_mem hb (by omega) (by omega))

theorem edits_store8 (a : Nat) (v : UInt8) (h1 : b.addr ≤ a) (h2 : a < b.addr + 16) :
    Edits bs h { h with mem := store8 h.mem a v } := by
  refine ⟨rfl, fun i hi => store8_out ?_, [], rfl, fun _ hx => by cases hx⟩
  intro e
  subst e
  exact hi (inHeader_of_mem hb h1 h2)

end OpenGpos.Libc.Heap
