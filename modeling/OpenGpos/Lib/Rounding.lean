/-
  OpenGpos.Lib.Rounding — a number as a whole part and a fraction in units of 1/n. The number comes
  cut to half units; what is whole of these is split off (`whole`) and the rest is rounded up to
  units (`units`). Together they are the number within half a unit (`abs_split_sub_le`). The rest
  rounds to `n` units, which is no fraction, exactly in the last half unit (`units_lt_iff`).
-/
import Mathlib

namespace OpenGpos.Lib.Rounding

/-- Of `h` half units. -/
def whole (n h : Nat) : Nat := h / (2 * n)

def units (n h : Nat) : Nat := (h % (2 * n) + 1) / 2

variable {n : Nat}

/-- Nothing is lost but the rounding. -/
theorem whole_add_units (n h : Nat) : 2 * n * whole n h + 2 * units n h = h + h % 2 := by
  have hdiv := Nat.div_add_mod h (2 * n)
  have hmod : h % (2 * n) % 2 = h % 2 := Nat.mod_mul_right_mod h 2 n
  unfold whole units
  omega

theorem units_lt (h : Nat) : units n h < n ↔ h % (2 * n) + 1 < 2 * n := by
  unfold units
  omega

section
variable {K : Type} [Field K] [LinearOrder K] [IsStrictOrderedRing K] [FloorRing K] {x : K}

theorem abs_split_sub_le (hn : 0 < n) (hx : 0 ≤ x) :
    |(whole n ⌊2 * n * x⌋₊ : K) + units n ⌊2 * n * x⌋₊ / n - x| ≤ 1 / (2 * n) := by
  have hn' : (0 : K) < 2 * n := by positivity
  have hle := Nat.floor_le (show 0 ≤ 2 * n * x by positivity)
  have hlt := Nat.lt_floor_add_one (2 * n * x)
  generalize ⌊2 * (n : K) * x⌋₊ = h at *
  have hsum : (2 * n * whole n h + 2 * units n h : K) = h + (h % 2 : Nat) := by exact_mod_cast whole_add_units n h
  have hr : ((h % 2 : Nat) : K) ≤ 1 := by exact_mod_cast Nat.le_of_lt_succ (Nat.mod_lt h (by decide))
  have hr0 : (0 : K) ≤ (h % 2 : Nat) := Nat.cast_nonneg _
  have hsplit : 2 * n * ((whole n h : K) + units n h / n - x) = h + (h % 2 : Nat) - 2 * n * x := by
    rw [← hsum]
    field_simp
  rw [le_div_iff₀ hn', mul_comm, ← abs_of_pos hn', ← abs_mul, hsplit, abs_le]
  constructor <;> linarith

/-- The fraction is one exactly if the number is not in the last half unit before the next whole one. -/
theorem units_lt_iff (hn : 0 < n) (hx : 0 ≤ x) : units n ⌊2 * n * x⌋₊ < n ↔ Int.fract x < 1 - 1 / (2 * n) := by
  have hn' : (0 : K) < 2 * n := by positivity
  have hle := Nat.floor_le (show 0 ≤ 2 * n * x by positivity)
  have hlt := Nat.lt_floor_add_one (2 * n * x)
  have hwhole : ⌊2 * n * x⌋₊ / (2 * n) = ⌊x⌋₊ := by
    rw [← Nat.floor_div_natCast]
    congr 1
    push_cast
    field_simp
  have hdiv := Nat.div_add_mod ⌊2 * n * x⌋₊ (2 * n)
  rw [hwhole] at hdiv
  have hfract : Int.fract x = x - ⌊x⌋₊ := by
    rw [Int.fract, ← natCast_floor_eq_intCast_floor hx]
  rw [units_lt, hfract]
  generalize ⌊2 * (n : K) * x⌋₊ = h at *
  have hcast : (2 * n * ⌊x⌋₊ + (h % (2 * n) : Nat) : K) = h := by exact_mod_cast hdiv
  have hgoal : x - ⌊x⌋₊ < 1 - 1 / (2 * n) ↔ 2 * n * x < 2 * n * ⌊x⌋₊ + 2 * n - 1 := by
    rw [← mul_lt_mul_iff_right₀ hn']
    field_simp
    constructor <;> intro h <;> linarith
  rw [hgoal]
  constructor
  · intro hm
    have hm' : ((h % (2 * n) : Nat) : K) + 2 ≤ 2 * n := by exact_mod_cast hm
    linarith
  · intro hm
    have hm' : ((h % (2 * n) : Nat) : K) < (2 * n - 1 : Nat) := by
      rw [Nat.cast_sub (by omega)]
      push_cast
      linarith
    have hm'' := Nat.cast_lt.mp hm'
    omega

end

end OpenGpos.Lib.Rounding
