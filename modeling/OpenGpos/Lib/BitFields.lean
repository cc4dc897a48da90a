/-
  OpenGpos.Lib.BitFields — fields packed into a word: `put` clears the `len` bits from `lo` on and
  writes the low bits of a value there; `field` reads them back. A put is seen by its own field and
  by no other (`field_put`, `field_put_apart`), so a run of puts is a run of record updates.
-/
import Mathlib

namespace OpenGpos.Lib.BitFields

variable {w : Nat}

/-- `len` ones. -/
def ones (w len : Nat) : BitVec w := BitVec.ofNat w (2 ^ len - 1)

def put (x : BitVec w) (lo len : Nat) (v : BitVec w) : BitVec w :=
  x &&& ~~~(ones w len <<< lo) ||| (v &&& ones w len) <<< lo

def field (x : BitVec w) (lo len : Nat) : BitVec len := x.extractLsb' lo len

theorem getLsbD_ones (len i : Nat) : (ones w len).getLsbD i = (decide (i < w) && decide (i < len)) := by
  unfold ones
  simp [BitVec.getLsbD_ofNat, Nat.testBit_two_pow_sub_one]

theorem getLsbD_put (x v : BitVec w) (lo len i : Nat) : (put x lo len v).getLsbD i =
    if lo ≤ i ∧ i < lo + len then decide (i < w) && v.getLsbD (i - lo) else x.getLsbD i := by
  unfold put
  simp only [BitVec.getLsbD_or, BitVec.getLsbD_and, BitVec.getLsbD_not, BitVec.getLsbD_shiftLeft, getLsbD_ones]
  rcases Nat.lt_or_ge i w with hw | hw
  · rcases Nat.lt_or_ge i lo with hlo | hlo
    · simp [hw, hlo, show ¬(lo ≤ i ∧ i < lo + len) by omega]
    · rcases Nat.lt_or_ge i (lo + len) with hlen | hlen
      · simp [hw, hlo, hlen, show ¬i < lo by omega, show i - lo < w by omega, show i - lo < len by omega]
      · simp [hw, show i - lo < w by omega, show ¬i - lo < len by omega, show ¬i < lo by omega,
        show ¬i < lo + len by omega]
  · simp [show ¬i < w by omega, BitVec.getLsbD_of_ge x i hw]

theorem getLsbD_field (x : BitVec w) (lo len i : Nat) : (field x lo len).getLsbD i =
    (decide (i < len) && x.getLsbD (lo + i)) := by
  unfold field
  simp [BitVec.getLsbD_extractLsb']

theorem field_put (x v : BitVec w) {lo len : Nat} (h : lo + len ≤ w) :
    field (put x lo len v) lo len = v.setWidth len := by
  apply BitVec.eq_of_getLsbD_eq
  intro i hi
  rw [getLsbD_field, getLsbD_put, if_pos (by omega), BitVec.getLsbD_setWidth]
  simp [hi, show lo + i < w by omega]

theorem field_put_apart (x v : BitVec w) {lo len lo' len' : Nat} (h : lo + len ≤ lo' ∨ lo' + len' ≤ lo) :
    field (put x lo' len' v) lo len = field x lo len := by
  apply BitVec.eq_of_getLsbD_eq
  intro i hi
  rw [getLsbD_field, getLsbD_put, if_neg (by omega), getLsbD_field]

/-- A word is its fields: two words that agree on a field from each bit on are one. -/
theorem eq_of_fields {x y : BitVec w} (h : ∀ i < w, ∃ lo len, lo ≤ i ∧ i < lo + len ∧ field x lo len = field y lo len) :
    x = y := by
  apply BitVec.eq_of_getLsbD_eq
  intro i hi
  obtain ⟨lo, len, hlo, hlen, hf⟩ := h i hi
  have hb := congrArg (fun f : BitVec len => f.getLsbD (i - lo)) hf
  simp only [getLsbD_field, show i - lo < len by omega, decide_true, Bool.true_and, Nat.add_sub_cancel' hlo] at hb
  exact hb

end OpenGpos.Lib.BitFields
