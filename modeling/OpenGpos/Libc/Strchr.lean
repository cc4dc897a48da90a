/-
  OpenGpos.Libc.Strchr — what `strchr` finds, and how far it reads. The loop is left at the first
  character that is not NUL, so a string that is not empty is never searched, and an empty one is
  searched past its end (`strchr_first_iff`).
-/
import OpenGpos.Lib.Traced
import OpenGpos.Libc.Strtok

namespace OpenGpos.Libc.Strings

open OpenGpos.Lib OpenGpos.Lib.Bytes OpenGpos.Lib.Fuel

/-- `strchr` with the addresses that it reads. -/
def strchrTraced (m : Mem) (c : Int) : Nat → Nat → Traced Nat (Option (Option Nat))
  | 0, _ => pure none
  | fuel + 1, str => do
    let ch := UInt8.ofInt c
    if (← Traced.access str (m str)) = 0 then
      if (← Traced.access str (m str)) = ch then pure (some (some str)) else strchrTraced m c fuel (str + 1)
    else if ch = 0 then pure (some (some str))
    else pure (some none)

/-- One turn. -/
theorem strchrTraced_succ (m : Mem) (c : Int) (fuel str : Nat) : strchrTraced m c (fuel + 1) str =
    if m str = 0 then
      if m str = UInt8.ofInt c then ⟨some (some str), [str, str]⟩
      else ⟨(strchrTraced m c fuel (str + 1)).value, str :: str :: (strchrTraced m c fuel (str + 1)).reads⟩
    else ⟨some (if UInt8.ofInt c = 0 then some str else none), [str]⟩ := by
  rw [strchrTraced, Traced.access_bind]
  by_cases h : m str = 0
  · rw [if_pos h, if_pos h, Traced.access_bind]
    by_cases hc : m str = UInt8.ofInt c
    · rw [if_pos hc, if_pos hc]
      rfl
    · rw [if_neg hc, if_neg hc]
  · rw [if_neg h, if_neg h]
    by_cases hc : UInt8.ofInt c = 0
    · rw [if_pos hc, if_pos hc]
      rfl
    · rw [if_neg hc, if_neg hc]
      rfl

theorem value_strchr (m : Mem) (c : Int) (fuel : Nat) : ∀ str : Nat, (strchrTraced m c fuel str).value = strchr m c fuel str := by
  induction fuel with
  | zero => exact fun _ => rfl
  | succ fuel ih =>
    intro str
    rw [strchrTraced_succ, strchr, ← ih]
    by_cases h : m str = 0
    · rw [if_pos h, if_pos h, apply_ite Traced.value]
    · rw [if_neg h, if_neg h, apply_ite some]

/-! ## The first occurrence -/

/-- Where `ch` stands first in the string `s` at `str`; NUL stands behind it. -/
def firstAt (str : Nat) (s : List UInt8) (ch : UInt8) : Option Nat :=
  if ch = 0 then some (str + s.length) else (s.idxOf? ch).map (str + ·)

/-- The call returns that place, and reads no further than the NUL. -/
def FindsFirst (m : Mem) (str : Nat) (s : List UInt8) (c : Int) : Prop :=
  ∃ t, Settles (fun fuel => strchrTraced m c fuel str) t ∧ t.value = some (firstAt str s (UInt8.ofInt c)) ∧
    t.AllReads fun a => str ≤ a ∧ a ≤ str + s.length

section
variable {m : Mem} {str : Nat} {s : List UInt8} {c : Int}

/-- At a character other than NUL the loop is left. -/
theorem strchrTraced_left (h : m str ≠ 0) : Settles (fun fuel => strchrTraced m c fuel str)
    ⟨some (if UInt8.ofInt c = 0 then some str else none), [str]⟩ := by
  apply Settles.of_succ
  refine ⟨0, fun fuel _ => ?_⟩
  dsimp only
  rw [strchrTraced_succ, if_neg h]

/-- A NUL that is looked for is found. -/
theorem strchrTraced_found (h : m str = 0) (hc : UInt8.ofInt c = 0) :
    Settles (fun fuel => strchrTraced m c fuel str) ⟨some (some str), [str, str]⟩ := by
  apply Settles.of_succ
  refine ⟨0, fun fuel _ => ?_⟩
  dsimp only
  rw [strchrTraced_succ, if_pos h, if_pos (h.trans hc.symm)]

/-- One that is not is passed: the call reads on behind it. -/
theorem strchrTraced_past (h : m str = 0) (hc : UInt8.ofInt c ≠ 0) {t : Traced Nat (Option (Option Nat))}
    (ht : Settles (fun fuel => strchrTraced m c fuel str) t) : str + 1 ∈ t.reads := by
  obtain ⟨n, hn⟩ := ht
  have hnext : ∀ fuel, str + 1 ∈ (strchrTraced m c (fuel + 1) (str + 1)).reads := by
    intro fuel
    rw [strchrTraced_succ]
    split_ifs <;> simp
  have hcall := hn (n + 2) (by omega)
  dsimp only at hcall
  rw [strchrTraced_succ, if_pos h, if_neg fun h0 => hc (h0.symm.trans h)] at hcall
  rw [← hcall]
  exact List.mem_cons_of_mem _ (List.mem_cons_of_mem _ (hnext n))

/-- `strchr` finds the first occurrence exactly if there is nothing to be found: a NUL in the empty
    string, and no character at all in one that does not have it. -/
theorem strchr_first_iff (hs : StringAt m str s) (c : Int) : FindsFirst m str s c ↔
    (s = [] ∧ UInt8.ofInt c = 0) ∨ (s ≠ [] ∧ UInt8.ofInt c ≠ 0 ∧ UInt8.ofInt c ∉ s) := by
  unfold FindsFirst firstAt
  cases s with
  | nil =>
    by_cases hc : UInt8.ofInt c = 0
    · refine iff_of_true ⟨_, strchrTraced_found hs hc, ?_, ?_⟩ (Or.inl ⟨rfl, hc⟩)
      · rw [if_pos hc]
        rfl
      · intro a ha
        obtain rfl : a = str := by simpa using ha
        exact ⟨Nat.le_refl a, Nat.le_add_right a _⟩
    · refine iff_of_false ?_ fun h => ?_
      · rintro ⟨t, ht, -, hreads⟩
        have hpast := (hreads _ (strchrTraced_past hs hc ht)).2
        rw [List.length_nil] at hpast
        omega
      · rcases h with ⟨-, h0⟩ | ⟨hne, -⟩
        · exact hc h0
        · exact hne rfl
  | cons x s =>
    have h0 : m str ≠ 0 := by
      rw [hs.1]
      exact hs.2.1
    have hcall := strchrTraced_left (c := c) h0
    constructor
    · rintro ⟨t, ht, hv, -⟩
      rw [← hcall.unique ht, Option.some_inj] at hv
      by_cases hc : UInt8.ofInt c = 0
      · rw [if_pos hc, if_pos hc, Option.some_inj, List.length_cons] at hv
        omega
      · rw [if_neg hc, if_neg hc] at hv
        have hnone := Option.map_eq_none_iff.mp hv.symm
        exact Or.inr ⟨List.cons_ne_nil x s, hc, List.idxOf?_eq_none_iff.mp hnone⟩
    · rintro (⟨hnil, -⟩ | ⟨-, hc, hnot⟩)
      · exact absurd hnil (List.cons_ne_nil x s)
      · refine ⟨_, hcall, ?_, ?_⟩
        · rw [if_neg hc, if_neg hc, List.idxOf?_eq_none_iff.mpr hnot]
          rfl
        · intro a ha
          obtain rfl : a = str := by simpa using ha
          exact ⟨Nat.le_refl a, Nat.le_add_right a _⟩

end

theorem abc_string : StringAt (twoStrings [0x61, 0x62, 0x63] []) 0 [0x61, 0x62, 0x63] :=
  ⟨rfl, by decide, rfl, by decide, rfl, by decide, rfl⟩

/-- `x` is not in `"abc"`. -/
theorem strchr_first_absent : FindsFirst (twoStrings [0x61, 0x62, 0x63] []) 0 [0x61, 0x62, 0x63] 0x78 :=
  (strchr_first_iff abc_string 0x78).mpr (Or.inr ⟨by decide, by decide, by decide⟩)

/-- `b` is, but the call returns NULL. -/
theorem strchr_misses : StringAt (twoStrings [0x61, 0x62, 0x63] []) 0 [0x61, 0x62, 0x63] ∧
    firstAt 0 [0x61, 0x62, 0x63] (UInt8.ofInt 0x62) = some 1 ∧
    Settles (fun fuel => strchr (twoStrings [0x61, 0x62, 0x63] []) 0x62 fuel 0) (some none) ∧
    ¬ FindsFirst (twoStrings [0x61, 0x62, 0x63] []) 0 [0x61, 0x62, 0x63] 0x62 := by
  have hcall := @strchrTraced_left (twoStrings [0x61, 0x62, 0x63] []) 0 0x62 (by decide)
  refine ⟨abc_string, by decide, ?_, ?_⟩
  · have hnul : ¬ UInt8.ofInt 0x62 = 0 := by decide
    simpa only [value_strchr, if_neg hnul] using hcall.map Traced.value
  · rintro ⟨t, ht, hv, -⟩
    rw [← hcall.unique ht] at hv
    exact absurd hv (by decide)

end OpenGpos.Libc.Strings
