/-
  OpenGpos.Lib.Numerals — positional numerals, highest digit first, of a fixed width or as short as
  they can be, and what they are read back as.
-/
import Mathlib

namespace OpenGpos.Lib.Numerals

/-- The last `w` digits of `n` in base `b`. -/
def fixed (b : Nat) : Nat → Nat → List Nat
  | 0, _ => []
  | w + 1, n => fixed b w (n / b) ++ [n % b]

/-- Without leading zeros; zero itself has one digit. -/
def shortest (b n : Nat) : List Nat := if n = 0 then [0] else (Nat.digits b n).reverse

def valueOf (b : Nat) (ds : List Nat) : Nat := ds.foldl (fun acc d => b * acc + d) 0

variable {b : Nat}

theorem valueOf_append (ds : List Nat) (d : Nat) : valueOf b (ds ++ [d]) = b * valueOf b ds + d := by
  unfold valueOf
  rw [List.foldl_append]
  rfl

theorem valueOf_reverse (ds : List Nat) : valueOf b ds.reverse = Nat.ofDigits b ds := by
  induction ds with
  | nil => rfl
  | cons d ds ih => rw [List.reverse_cons, valueOf_append, ih, Nat.ofDigits_cons, Nat.add_comm]

@[simp] theorem length_fixed (w : Nat) : ∀ n, (fixed b w n).length = w := by
  induction w with
  | zero => exact fun _ => rfl
  | succ w ih =>
    intro n
    rw [fixed, List.length_append, ih]
    rfl

theorem valueOf_fixed (w : Nat) : ∀ n, valueOf b (fixed b w n) = n % b ^ w := by
  induction w with
  | zero =>
    intro n
    rw [pow_zero, Nat.mod_one]
    rfl
  | succ w ih =>
    intro n
    rw [fixed, valueOf_append, ih, Nat.pow_succ, Nat.mul_comm (b ^ w), Nat.mod_mul, Nat.add_comm]

theorem valueOf_shortest (n : Nat) : valueOf b (shortest b n) = n := by
  unfold shortest
  split
  · next h0 => rw [h0]; rfl
  · rw [valueOf_reverse, Nat.ofDigits_digits]

theorem fixed_lt (hb : 0 < b) (w : Nat) : ∀ n, ∀ d ∈ fixed b w n, d < b := by
  induction w with
  | zero => exact fun n d hd => nomatch hd
  | succ w ih =>
    intro n d hd
    rcases List.mem_append.mp hd with hd | hd
    · exact ih _ d hd
    · rw [List.mem_singleton] at hd
      exact hd ▸ Nat.mod_lt n hb

theorem shortest_lt (hb : 1 < b) (n : Nat) : ∀ d ∈ shortest b n, d < b := by
  intro d hd
  unfold shortest at hd
  split at hd
  · rw [List.mem_singleton] at hd
    omega
  · exact Nat.digits_lt_base hb (List.mem_reverse.mp hd)

/-- A numeral starts with a zero only if it is that of zero. -/
theorem head_shortest (n : Nat) (hn : n ≠ 0) : ∃ d ds, shortest b n = d :: ds ∧ d ≠ 0 := by
  have hne : Nat.digits b n ≠ [] := Nat.digits_ne_nil_iff_ne_zero.mpr hn
  refine ⟨(Nat.digits b n).getLast hne, (Nat.digits b n).dropLast.reverse, ?_, Nat.getLast_digit_ne_zero b hn⟩
  rw [shortest, if_neg hn, ← List.reverse_concat, List.dropLast_append_getLast]

theorem length_shortest (hb : 1 < b) {n k : Nat} (hk : 0 < k) (h : n < b ^ k) : (shortest b n).length ≤ k := by
  unfold shortest
  split
  · exact hk
  · rw [List.length_reverse]
    exact Nat.digits_length_le_iff hb n |>.mpr h

end OpenGpos.Lib.Numerals
