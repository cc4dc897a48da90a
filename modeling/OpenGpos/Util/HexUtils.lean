/-
  OpenGpos.Util.HexUtils — the number formatting of lib/util/hexutils.c. A `char *` is a buffer whose
  first byte is at index 0. Each routine leaves a string (`putStr`): eight or two hexadecimal digits,
  three decimal ones, or as many decimal ones as the number has.
-/
import OpenGpos.Lib.Numerals
import OpenGpos.Libc.Strings

namespace OpenGpos.Util

open OpenGpos.Lib.Bytes OpenGpos.Lib.Numerals OpenGpos.Libc.Strings

/-- "0123456789ABCDEF". -/
def hexDigits : List UInt8 :=
  [0x30, 0x31, 0x32, 0x33, 0x34, 0x35, 0x36, 0x37, 0x38, 0x39, 0x41, 0x42, 0x43, 0x44, 0x45, 0x46]

def hexToStr (str : Mem) (n : UInt32) : Mem :=
  let str := (List.range 8).foldl
    (fun str i => store8 str i (hexDigits.getD ((n >>> UInt32.ofNat (28 - i * 4)) &&& 0xF).toNat 0)) str
  store8 str 8 0

def byteToStr (str : Mem) (n : UInt8) : Mem :=
  let str := store8 str 0 (hexDigits.getD ((n >>> 4) &&& 0x0F).toNat 0)
  let str := store8 str 1 (hexDigits.getD (n &&& 0x0F).toNat 0)
  store8 str 2 0

def byteToDec (str : Mem) (n : UInt8) : Mem :=
  let str := store8 str 2 (n % 10 + 0x30)
  let str := store8 str 1 ((n / 10) % 10 + 0x30)
  let str := store8 str 0 ((n / 100) % 10 + 0x30)
  store8 str 3 0

/-- The digits, lowest first: `i` and `temp_str` behind the loop. Ten turns are enough for 32 bits. -/
def tempLoop : Nat → UInt32 → Nat → Mem → Nat × Mem
  | 0, _, i, tempStr => (i, tempStr)
  | fuel + 1, n, i, tempStr =>
    if 0 < n then tempLoop fuel (n / 10) (i + 1) (store8 tempStr i ((n % 10).toUInt8 + 0x30)) else (i, tempStr)

/-- The digits turned round: `j` and `str` behind the loop. -/
def turnLoop (tempStr : Mem) : Nat → Nat → Mem → Nat × Mem
  | 0, j, str => (j, str)
  | i + 1, j, str => turnLoop tempStr i (j + 1) (store8 str j (tempStr i))

/-- `tempStr` is what the local buffer holds at first. -/
def intToDec (str tempStr : Mem) (n : UInt32) : Mem :=
  if n = 0 then store8 (store8 str 0 0x30) 1 0
  else
    let (i, tempStr) := tempLoop 10 n 0 tempStr
    let (j, str) := turnLoop tempStr i 0 str
    store8 str j 0

/-! ## Characters and digits -/

def digitChar (d : Nat) : UInt8 := hexDigits.getD d 0

/-- What a character counts as a digit. -/
def charDigit (c : UInt8) : Nat := hexDigits.idxOf c

theorem digitChar_spec : ∀ d < 16, digitChar d ≠ 0 ∧ charDigit (digitChar d) = d := by decide

theorem digitChar_dec : ∀ d < 10, digitChar d = UInt8.ofNat d + 0x30 := by decide

/-- The characters of a numeral. -/
def chars (ds : List Nat) : List UInt8 := ds.map digitChar

section
variable {ds : List Nat} {b : Nat} (hb : b ≤ 16) (h : ∀ d ∈ ds, d < b)
include hb h

theorem chars_ne_zero : ∀ c ∈ chars ds, c ≠ 0 := by
  intro c hc
  obtain ⟨d, hd, rfl⟩ := List.mem_map.mp hc
  exact (digitChar_spec d (Nat.lt_of_lt_of_le (h d hd) hb)).1

theorem chars_digits : (chars ds).map charDigit = ds := by
  unfold chars
  rw [List.map_map]
  refine (List.map_congr_left fun d hd => ?_).trans (List.map_id ds)
  exact (digitChar_spec d (Nat.lt_of_lt_of_le (h d hd) hb)).2

end

/-! ## What the routines leave -/

theorem and_fifteen (n : Nat) : n &&& 15 = n % 16 := Nat.and_two_pow_sub_one_eq_mod n 4

theorem foldl_store8 (f : Nat → UInt8) (str : Mem) (w : Nat) :
    (List.range w).foldl (fun str i => store8 str i (f i)) str = fun q => if q < w then f q else str q := by
  induction w with
  | zero => rfl
  | succ w ih =>
    rw [List.range_succ, List.foldl_append, ih]
    funext q
    show (if q = w then f w else _) = _
    by_cases hq : q = w
    · rw [if_pos hq, if_pos (by omega), hq]
    · rw [if_neg hq]
      exact if_congr (by omega) rfl rfl

/-- A buffer that holds the characters and the NUL and is otherwise as before. -/
theorem eq_putStr {str str' : Mem} {s : List UInt8} (hs : ∀ i (h : i < s.length), str' i = s[i]) (h0 : str' s.length = 0)
    (hr : ∀ i, s.length < i → str' i = str i) : str' = putStr str s := by
  funext q
  unfold putStr
  by_cases hq : q < s.length
  · rw [if_pos hq, hs q hq, List.getD_eq_getElem?_getD, List.getElem?_eq_getElem hq]
    rfl
  · rw [if_neg hq]
    by_cases he : q = s.length
    · rw [if_pos he, he, h0]
    · rw [if_neg he, hr q (by omega)]

theorem length_chars (ds : List Nat) : (chars ds).length = ds.length := List.length_map ..

theorem hexToStr_eq (str : Mem) (n : UInt32) : hexToStr str n = putStr str (chars (fixed 16 8 n.toNat)) := by
  have hd : ∀ i (h : i < (chars (fixed 16 8 n.toNat)).length),
      hexDigits.getD ((n >>> UInt32.ofNat (28 - i * 4)) &&& 0xF).toNat 0 = (chars (fixed 16 8 n.toNat))[i] := by
    intro i hi
    rw [length_chars, length_fixed] at hi
    interval_cases i <;>
      simp [chars, fixed, digitChar, and_fifteen, Nat.shiftRight_eq_div_pow, Nat.div_div_eq_div_mul]
  unfold hexToStr
  rw [foldl_store8]
  refine eq_putStr (fun i hi => ?_) ?_ fun i hi => ?_
  · have h8 : i < 8 := by rwa [length_chars, length_fixed] at hi
    rw [store8_out (by omega), if_pos h8]
    exact hd i hi
  · rw [length_chars, length_fixed]
    exact store8_same ..
  · rw [length_chars, length_fixed] at hi
    rw [store8_out (by omega), if_neg (by omega)]

theorem byteToStr_eq (str : Mem) (n : UInt8) : byteToStr str n = putStr str (chars (fixed 16 2 n.toNat)) := by
  refine eq_putStr (fun i hi => ?_) rfl fun i hi => ?_
  · rw [length_chars, length_fixed] at hi
    interval_cases i <;>
      simp [byteToStr, store8, chars, fixed, digitChar, and_fifteen, Nat.shiftRight_eq_div_pow]
  · rw [length_chars, length_fixed] at hi
    unfold byteToStr
    rw [store8_out (by omega), store8_out (by omega), store8_out (by omega)]

theorem byteToDec_eq (str : Mem) (n : UInt8) : byteToDec str n = putStr str (chars (fixed 10 3 n.toNat)) := by
  have hd : ∀ d : UInt8, d % 10 + 0x30 = digitChar (d.toNat % 10) := by decide +kernel
  refine eq_putStr (fun i hi => ?_) rfl fun i hi => ?_
  · rw [length_chars, length_fixed] at hi
    interval_cases i <;> simp [byteToDec, store8, chars, fixed, hd, Nat.div_div_eq_div_mul]
  · rw [length_chars, length_fixed] at hi
    unfold byteToDec
    rw [store8_out (by omega), store8_out (by omega), store8_out (by omega), store8_out (by omega)]

/-! ## The two loops of `intToDec` -/

theorem tempLoop_spec (fuel : Nat) : ∀ (n : UInt32) (i : Nat) (tempStr : Mem), n.toNat < 10 ^ fuel →
    (tempLoop fuel n i tempStr).1 = i + (Nat.digits 10 n.toNat).length ∧
      (∀ k (h : k < (Nat.digits 10 n.toNat).length),
        (tempLoop fuel n i tempStr).2 (i + k) = digitChar (Nat.digits 10 n.toNat)[k]) ∧
      ∀ j < i, (tempLoop fuel n i tempStr).2 j = tempStr j := by
  induction fuel with
  | zero =>
    intro n i tempStr hn
    obtain hn0 : n.toNat = 0 := by simpa using hn
    rw [hn0]
    exact ⟨rfl, fun k h => absurd h (Nat.not_lt_zero k), fun _ _ => rfl⟩
  | succ fuel ih =>
    intro n i tempStr hn
    by_cases h0 : 0 < n
    · have hpos : 0 < n.toNat := UInt32.lt_iff_toNat_lt.mp h0
      have hdiv : (n / 10).toNat = n.toNat / 10 := UInt32.toNat_div ..
      have hdigit : (n % 10).toUInt8 + 0x30 = digitChar (n.toNat % 10) := by
        rw [digitChar_dec _ (Nat.mod_lt _ (by decide))]
        congr 1
      rw [Nat.digits_def' (by decide) hpos]
      obtain ⟨h1, h2, h3⟩ := ih (n / 10) (i + 1) (store8 tempStr i ((n % 10).toUInt8 + 0x30))
        (by rw [hdiv, Nat.div_lt_iff_lt_mul (by decide), ← Nat.pow_succ]; exact hn)
      rw [hdiv] at h1 h2
      rw [tempLoop, if_pos h0]
      refine ⟨?_, fun k hk => ?_, fun j hj => ?_⟩
      · rw [h1, List.length_cons]
        omega
      · cases k with
        | zero =>
          exact (h3 i (Nat.lt_succ_self i)).trans ((store8_same ..).trans hdigit)
        | succ k =>
          have := h2 k (by rw [List.length_cons] at hk; omega)
          rw [show i + (k + 1) = i + 1 + k by omega, this]
          rfl
      · rw [h3 j (by omega), store8_out (by omega)]
    · have hn0 : n.toNat = 0 := by
        rw [UInt32.lt_iff_toNat_lt] at h0
        exact Nat.eq_zero_of_not_pos h0
      rw [tempLoop, if_neg h0, hn0]
      exact ⟨rfl, fun k h => absurd h (Nat.not_lt_zero k), fun _ _ => rfl⟩

theorem turnLoop_spec (tempStr : Mem) (i : Nat) : ∀ (j : Nat) (str : Mem),
    (turnLoop tempStr i j str).1 = j + i ∧ (∀ k < i, (turnLoop tempStr i j str).2 (j + k) = tempStr (i - 1 - k)) ∧
      ∀ q, q < j ∨ j + i ≤ q → (turnLoop tempStr i j str).2 q = str q := by
  induction i with
  | zero => exact fun j str => ⟨rfl, fun k hk => absurd hk (Nat.not_lt_zero k), fun _ _ => rfl⟩
  | succ i ih =>
    intro j str
    obtain ⟨h1, h2, h3⟩ := ih (j + 1) (store8 str j (tempStr i))
    rw [turnLoop]
    refine ⟨by rw [h1]; omega, fun k hk => ?_, fun q hq => ?_⟩
    · cases k with
      | zero =>
        exact (h3 j (.inl (Nat.lt_succ_self j))).trans (store8_same ..)
      | succ k =>
        have := h2 k (by omega)
        rw [show j + (k + 1) = j + 1 + k by omega, this]
        congr 1
        omega
    · rw [h3 q (by omega), store8_out (by omega)]

theorem intToDec_eq (str tempStr : Mem) (n : UInt32) :
    intToDec str tempStr n = putStr str (chars (shortest 10 n.toNat)) := by
  have hzero : n = 0 ↔ n.toNat = 0 := by rw [← UInt32.toNat_inj]; rfl
  unfold intToDec shortest
  by_cases h0 : n = 0
  · rw [if_pos h0, if_pos (hzero.mp h0)]
    refine eq_putStr (fun i hi => ?_) rfl fun i hi => ?_
    · obtain rfl : i = 0 := Nat.lt_one_iff.mp hi
      rfl
    · have hi' : 1 < i := hi
      rw [store8_out (by omega), store8_out (by omega)]
  · rw [if_neg h0, if_neg fun h => h0 (hzero.mpr h)]
    obtain ⟨h1, h2, -⟩ := tempLoop_spec 10 n 0 tempStr (Nat.lt_trans n.toNat_lt (by decide))
    rw [Nat.zero_add] at h1
    obtain ⟨t1, t2, t3⟩ := turnLoop_spec (tempLoop 10 n 0 tempStr).2 (tempLoop 10 n 0 tempStr).1 0 str
    rw [h1] at t1 t2 t3
    rw [Nat.zero_add] at t1
    have hlen : (chars (Nat.digits 10 n.toNat).reverse).length = (Nat.digits 10 n.toNat).length := by
      rw [length_chars, List.length_reverse]
    dsimp only
    rw [h1, t1]
    refine eq_putStr (fun i hi => ?_) ?_ fun i hi => ?_
    · rw [hlen] at hi
      have ht := t2 i hi
      have hd := h2 ((Nat.digits 10 n.toNat).length - 1 - i) (by omega)
      rw [Nat.zero_add] at ht hd
      rw [store8_out (by omega), ht, hd]
      simp [chars]
    · rw [hlen]
      exact store8_same ..
    · rw [hlen] at hi
      rw [store8_out (by omega), t3 i (.inr (by omega))]

end OpenGpos.Util
