/-
  OpenGpos.Lib.Bytes — byte-addressed memory: little-endian words in it, and what a
  store leaves alone. An address is a natural number; nothing here knows what lives
  where.
-/
import Mathlib

namespace OpenGpos.Lib.Bytes

abbrev Mem := Nat → UInt8

/-- The 32-bit little-endian word at `a`. -/
def load32 (m : Mem) (a : Nat) : Nat :=
  (m a).toNat + 2 ^ 8 * (m (a + 1)).toNat + 2 ^ 16 * (m (a + 2)).toNat + 2 ^ 24 * (m (a + 3)).toNat

/-- The 16-bit one. -/
def load16 (m : Mem) (a : Nat) : Nat := (m a).toNat + 2 ^ 8 * (m (a + 1)).toNat

def store8 (m : Mem) (a : Nat) (v : UInt8) : Mem := fun i => if i = a then v else m i

/-- Store the low 32 bits of `v` at `a`. -/
def store32 (m : Mem) (a v : Nat) : Mem := fun i =>
  if i = a then UInt8.ofNat v
  else if i = a + 1 then UInt8.ofNat (v / 2 ^ 8)
  else if i = a + 2 then UInt8.ofNat (v / 2 ^ 16)
  else if i = a + 3 then UInt8.ofNat (v / 2 ^ 24)
  else m i

/-- Copy `n` bytes from `s` to `d`, one at a time, upwards. -/
def copy (m : Mem) (d s : Nat) : Nat → Mem
  | 0 => m
  | n + 1 => store8 (copy m d s n) (d + n) (copy m d s n (s + n))

/-- Store `v` at `n` addresses from `d` on, upwards. -/
def fill (m : Mem) (d : Nat) (v : UInt8) : Nat → Mem
  | 0 => m
  | n + 1 => store8 (fill m d v n) (d + n) v

/-- Two memories hold the same bytes in `[lo, hi)`. -/
def SameOn (lo hi : Nat) (m m' : Mem) : Prop := ∀ i, lo ≤ i → i < hi → m' i = m i

/-! ## Words -/

theorem load32_lt (m : Mem) (a : Nat) : load32 m a < 2 ^ 32 := by
  have h0 := (m a).toNat_lt
  have h1 := (m (a + 1)).toNat_lt
  have h2 := (m (a + 2)).toNat_lt
  have h3 := (m (a + 3)).toNat_lt
  unfold load32; omega

theorem load16_lt (m : Mem) (a : Nat) : load16 m a < 2 ^ 16 := by
  have h0 := (m a).toNat_lt
  have h1 := (m (a + 1)).toNat_lt
  unfold load16; omega

theorem load16_congr {m m' : Mem} {a : Nat} (h : SameOn a (a + 2) m m') : load16 m' a = load16 m a := by
  unfold load16
  rw [h a (by omega) (by omega), h (a + 1) (by omega) (by omega)]

theorem load32_congr {m m' : Mem} {a : Nat} (h : SameOn a (a + 4) m m') : load32 m' a = load32 m a := by
  unfold load32
  rw [h a (by omega) (by omega), h (a + 1) (by omega) (by omega), h (a + 2) (by omega) (by omega),
    h (a + 3) (by omega) (by omega)]

theorem store32_out {m : Mem} {a v i : Nat} (h : i < a ∨ a + 4 ≤ i) : store32 m a v i = m i := by
  unfold store32
  rw [if_neg (by omega), if_neg (by omega), if_neg (by omega), if_neg (by omega)]

theorem store8_out {m : Mem} {a i : Nat} {v : UInt8} (h : i ≠ a) : store8 m a v i = m i := if_neg h

@[simp] theorem store8_same (m : Mem) (a : Nat) (v : UInt8) : store8 m a v a = v := if_pos rfl

/-- Of two stores at one address the second counts. -/
theorem store8_store8 (m : Mem) (a : Nat) (v v' : UInt8) : store8 (store8 m a v) a v' = store8 m a v' := by
  funext i
  unfold store8
  split <;> rfl

/-- A load of a stored word gives the word back. -/
theorem load32_store32 {m : Mem} {a v : Nat} (hv : v < 2 ^ 32) : load32 (store32 m a v) a = v := by
  have e0 : store32 m a v a = UInt8.ofNat v := if_pos rfl
  have e1 : store32 m a v (a + 1) = UInt8.ofNat (v / 2 ^ 8) := by
    unfold store32; rw [if_neg (by omega), if_pos rfl]
  have e2 : store32 m a v (a + 2) = UInt8.ofNat (v / 2 ^ 16) := by
    unfold store32; rw [if_neg (by omega), if_neg (by omega), if_pos rfl]
  have e3 : store32 m a v (a + 3) = UInt8.ofNat (v / 2 ^ 24) := by
    unfold store32; rw [if_neg (by omega), if_neg (by omega), if_neg (by omega), if_pos rfl]
  unfold load32
  rw [e0, e1, e2, e3]
  simp only [UInt8.toNat_ofNat']
  omega

/-- A load that does not meet the stored word reads what was there. -/
theorem load32_store32_ne {m : Mem} {a b v : Nat} (h : b + 4 ≤ a ∨ a + 4 ≤ b) :
    load32 (store32 m a v) b = load32 m b :=
  load32_congr fun _ _ _ => store32_out (by omega)

theorem load32_store8_ne {m : Mem} {a b : Nat} {v : UInt8} (h : a < b ∨ b + 4 ≤ a) :
    load32 (store8 m a v) b = load32 m b :=
  load32_congr fun _ _ _ => store8_out (by omega)

/-- Bytes put together with shifts. -/
theorem or_shift {x y i : Nat} (hx : x < 2 ^ i) : x ||| y <<< i = x + 2 ^ i * y := by
  rw [Nat.shiftLeft_eq, Nat.mul_comm, Nat.or_comm, ← Nat.two_pow_add_eq_or_of_lt hx, Nat.add_comm]

theorem byte_shift {x i : Nat} (hx : x < 2 ^ 8) (hi : i ≤ 24) : x <<< i % 2 ^ 32 = x <<< i := by
  apply Nat.mod_eq_of_lt
  rw [Nat.shiftLeft_eq]
  calc x * 2 ^ i < 2 ^ 8 * 2 ^ i := Nat.mul_lt_mul_of_pos_right hx (Nat.two_pow_pos i)
    _ ≤ 2 ^ 8 * 2 ^ 24 := Nat.mul_le_mul_left _ (Nat.pow_le_pow_right (by decide) hi)
    _ = 2 ^ 32 := by decide

/-! ## Ranges left alone -/

theorem SameOn.refl (lo hi : Nat) (m : Mem) : SameOn lo hi m m := fun _ _ _ => rfl

theorem SameOn.trans {lo hi : Nat} {m m' m'' : Mem} (h : SameOn lo hi m m') (h' : SameOn lo hi m' m'') :
    SameOn lo hi m m'' := fun i a b => (h' i a b).trans (h i a b)

theorem SameOn.mono {lo hi lo' hi' : Nat} {m m' : Mem} (h : SameOn lo hi m m') (hl : lo ≤ lo') (hh : hi' ≤ hi) :
    SameOn lo' hi' m m' := fun i a b => h i (by omega) (by omega)

theorem sameOn_store32 {lo hi a v : Nat} {m : Mem} (h : hi ≤ a ∨ a + 4 ≤ lo) : SameOn lo hi m (store32 m a v) :=
  fun _ _ _ => store32_out (by omega)

theorem sameOn_store8 {lo hi a : Nat} {v : UInt8} {m : Mem} (h : hi ≤ a ∨ a < lo) : SameOn lo hi m (store8 m a v) :=
  fun _ _ _ => store8_out (by omega)

/-! ## Copies -/

theorem copy_out {m : Mem} {d s n i : Nat} (h : i < d ∨ d + n ≤ i) : copy m d s n i = m i := by
  induction n with
  | zero => rfl
  | succ n ih =>
    rw [copy, store8_out (by omega)]
    exact ih (by omega)

/-- A copy between ranges that do not meet puts the source's bytes at the destination. -/
theorem copy_in {m : Mem} {d s n i : Nat} (hd : d + n ≤ s ∨ s + n ≤ d) (hi : i < n) :
    copy m d s n (d + i) = m (s + i) := by
  induction n with
  | zero => omega
  | succ n ih =>
    rw [copy]
    by_cases e : i = n
    · subst e
      rw [store8_same, copy_out (by omega)]
    · rw [store8_out (by omega)]
      exact ih (by omega) (by omega)

theorem fill_out {m : Mem} {d n i : Nat} {v : UInt8} (h : i < d ∨ d + n ≤ i) : fill m d v n i = m i := by
  induction n with
  | zero => rfl
  | succ n ih =>
    rw [fill, store8_out (by omega)]
    exact ih (by omega)

theorem fill_in {m : Mem} {d n i : Nat} {v : UInt8} (hi : i < n) : fill m d v n (d + i) = v := by
  induction n with
  | zero => omega
  | succ n ih =>
    rw [fill]
    by_cases e : i = n
    · subst e
      exact store8_same ..
    · rw [store8_out (by omega)]
      exact ih (by omega)

end OpenGpos.Lib.Bytes
