/-
  OpenGpos.Libc.Strtok — `strchr` and `strtok` of libc/src/string. The loop of `strchr` goes on
  while it reads a NUL, so in a string that is not empty it finds nothing; `strtok` then runs to
  the end of its string (`strtok_splits_iff`). A call that runs out of fuel gives `none`.
-/
import OpenGpos.Lib.Fuel
import OpenGpos.Lib.Runs
import OpenGpos.Libc.Strings

namespace OpenGpos.Libc.Strings

open OpenGpos.Lib.Bytes OpenGpos.Lib.Fuel OpenGpos.Lib.Runs

def strchr (m : Mem) (c : Int) : Nat → Nat → Option (Option Nat)
  | 0, _ => none
  | fuel + 1, str =>
    let ch := UInt8.ofInt c
    if m str = 0 then
      if m str = ch then some (some str) else strchr m c fuel (str + 1)
    else if ch = 0 then some (some str)
    else some none

/-- What `strtok` works on: the memory, and its static pointer. -/
structure TokState where
  mem : Mem
  lastToken : Option Nat

/-- `while (*lastToken != '\0' && strchr(delim, *lastToken) == NULL) lastToken++`. -/
def skipNotFound (m : Mem) (delim : Nat) : Nat → Nat → Option Nat
  | 0, _ => none
  | fuel + 1, lastToken =>
    if m lastToken ≠ 0 then
      (strchr m (m lastToken).toNat fuel delim).bind fun r =>
        if r = none then skipNotFound m delim fuel (lastToken + 1) else some lastToken
    else some lastToken

/-- Where the scan starts: at a new string, or at the static pointer where that is not at the end. -/
def tokenFrom (str : Option Nat) (s : TokState) : Option Nat := if str ≠ none then str else s.lastToken.filter
    (s.mem · ≠ 0)

def strtok (str : Option Nat) (delim : Nat) (s : TokState) (fuel : Nat) : Option (Option Nat × TokState) :=
  match tokenFrom str s with
  | none => some (none, s)
  | some lastToken =>
    (skipNotFound s.mem delim fuel lastToken).bind fun tokenStart =>
      if s.mem tokenStart = 0 then some (none, ⟨s.mem, some tokenStart⟩)
      else
        (skipNotFound s.mem delim fuel tokenStart).bind fun lastToken =>
          if s.mem lastToken ≠ 0 then some (some tokenStart, ⟨store8 s.mem lastToken 0, some (lastToken + 1)⟩)
          else some (some tokenStart, ⟨s.mem, some lastToken⟩)

/-! ## Tokens -/

/-- A call that returns. -/
def Called (delim : Nat) (str : Option Nat) (s : TokState) (r : Option Nat) (s' : TokState) : Prop :=
  Settles (strtok str delim s) (some (r, s'))

/-- Calls up to the first NULL, the first of them with `str` and the others without a string, and
    the tokens they return. -/
inductive Tokens (delim : Nat) : Option Nat → TokState → List (List UInt8) → TokState → Prop
  | done {str : Option Nat} {s s' : TokState} : Called delim str s none s' → Tokens delim str s [] s'
  | token {str : Option Nat} {s s1 s' : TokState} {p : Nat} {t : List UInt8} {ts : List (List UInt8)} :
      Called delim str s (some p) s1 → StringAt s1.mem p t → Tokens delim none s1 ts s' →
        Tokens delim str s (t :: ts) s'

/-- The maximal runs of characters that are not in `d`. -/
def runsOutside (d s : List UInt8) : List (List UInt8) := (s.splitOnP fun c => decide (c ∈ d)).filter (· ≠ [])

/-- From `str` on the calls return the tokens, then NULL, and NULL however often they are repeated. -/
def Splits (delim str : Nat) (s : TokState) (tokens : List (List UInt8)) : Prop :=
  ∃ s', Tokens delim (some str) s tokens s' ∧
    ∀ n, ∃ s'', Run (fun s r s' => Called delim none s r s') s' (List.replicate n none) s''

theorem filter_modifyHead_cons {c : UInt8} {l : List (List UInt8)} (hl : l ≠ []) :
    (l.modifyHead (List.cons c)).filter (· ≠ []) ≠ [] := by
  cases l with
  | nil => exact absurd rfl hl
  | cons x xs => simp

theorem runsOutside_eq_nil {d s : List UInt8} : runsOutside d s = [] ↔ ∀ c ∈ s, c ∈ d := by
  unfold runsOutside
  induction s with
  | nil => simp
  | cons c s ih =>
    rw [List.splitOnP_cons_eq_if_modifyHead]
    by_cases hc : c ∈ d
    · simpa [hc] using ih
    · refine iff_of_false ?_ fun h => hc (h c List.mem_cons_self)
      rw [if_neg (by simpa using hc)]
      exact filter_modifyHead_cons (List.splitOnP_ne_nil _ s)

/-! ## What the code does -/

section
variable {m : Mem} {delim str : Nat} {s d : List UInt8}

/-- In a string that is not empty nothing is found but NUL. -/
theorem strchr_none {c : UInt8} (hc : c ≠ 0) (hd : m delim ≠ 0) (fuel : Nat) :
    strchr m c.toNat (fuel + 1) delim = some none := by
  have hch : UInt8.ofInt c.toNat = c := by
    have hlt := c.toNat_lt
    have hmod : ((c.toNat : Int) % 2 ^ 8).toNat = c.toNat := by omega
    rw [UInt8.ofInt, hmod, UInt8.ofNat_toNat]
  rw [strchr]
  simp only [hch]
  rw [if_neg hd, if_neg hc]

/-- So the scan goes to the end of the string. -/
theorem skipNotFound_end (hd : m delim ≠ 0) : ∀ {s : List UInt8} {p fuel : Nat}, StringAt m p s → s.length + 1 < fuel →
    skipNotFound m delim fuel p = some (p + s.length) := by
  intro s
  induction s with
  | nil =>
    intro p fuel h hf
    obtain ⟨n, rfl⟩ := Nat.exists_eq_add_one_of_ne_zero (show fuel ≠ 0 by omega)
    have h0 : m p = 0 := h
    rw [skipNotFound, if_neg (not_not.mpr h0)]
    rfl
  | cons c s ih =>
    intro p fuel h hf
    obtain ⟨hc, h0, hs⟩ := h
    rw [List.length_cons] at hf ⊢
    obtain ⟨n, rfl⟩ := Nat.exists_eq_add_one_of_ne_zero (show fuel ≠ 0 by omega)
    obtain ⟨n, rfl⟩ := Nat.exists_eq_add_one_of_ne_zero (show n ≠ 0 by omega)
    rw [skipNotFound, hc, if_pos h0, strchr_none h0 hd, Option.bind_some, if_pos rfl, ih hs (by omega)]
    congr 1
    omega

theorem stringAt_end : ∀ {s : List UInt8} {p : Nat}, StringAt m p s → m (p + s.length) = 0 := by
  intro s
  induction s with
  | nil => exact fun h => h
  | cons c s ih =>
    intro p h
    have hs := ih h.2.2
    rwa [List.length_cons, show p + (s.length + 1) = p + 1 + s.length by omega]

/-- The first call returns NULL, at the end of the string. -/
theorem called_string (hd : m delim ≠ 0) (hs : StringAt m str s) (last : Option Nat) :
    Called delim (some str) ⟨m, last⟩ none ⟨m, some (str + s.length)⟩ := by
  refine ⟨s.length + 2, fun fuel hf => ?_⟩
  show (skipNotFound m delim fuel str).bind _ = _
  rw [skipNotFound_end hd hs (show s.length + 1 < fuel by omega), Option.bind_some, if_pos (stringAt_end hs)]

/-- There every further call returns NULL. -/
theorem called_again {p : Nat} (h0 : m p = 0) : Called delim none ⟨m, some p⟩ none ⟨m, some p⟩ := by
  refine ⟨0, fun fuel _ => ?_⟩
  have hfrom : tokenFrom none ⟨m, some p⟩ = none := by simp [tokenFrom, h0]
  rw [strtok, hfrom]

/-- `strtok` splits a string along delimiters exactly if there is nothing else in it: it never
    returns a token. -/
theorem strtok_splits_iff (hs : StringAt m str s) (hd : StringAt m delim d) (hne : d ≠ []) (last : Option Nat) :
    Splits delim str ⟨m, last⟩ (runsOutside d s) ↔ ∀ c ∈ s, c ∈ d := by
  have hdelim : m delim ≠ 0 := by
    cases d with
    | nil => exact absurd rfl hne
    | cons c d => rw [hd.1]; exact hd.2.1
  have hcall := called_string hdelim hs last
  rw [← runsOutside_eq_nil]
  constructor
  · rintro ⟨s', ht, -⟩
    generalize runsOutside d s = ts at ht
    cases ht with
    | done _ => rfl
    | token h _ _ => simpa using hcall.unique h
  · intro h
    rw [h]
    have hagain : Called delim none ⟨m, some (str + s.length)⟩ none ⟨m, some (str + s.length)⟩ :=
      called_again (stringAt_end hs)
    refine ⟨⟨m, some (str + s.length)⟩, .done hcall, fun n => ⟨⟨m, some (str + s.length)⟩, ?_⟩⟩
    induction n with
    | zero => exact .nil _
    | succ n ih => exact .cons hagain ih

end

/-- Two strings, and NUL in the rest of the memory. -/
def twoStrings (s d : List UInt8) : Mem := fun i => (s ++ 0 :: d).getD i 0

/-- `",,"` along `","`. -/
theorem strtok_splits_commas : Splits 3 0 ⟨twoStrings [0x2C, 0x2C] [0x2C], none⟩ [] := by
  have h := strtok_splits_iff (m := twoStrings [0x2C, 0x2C] [0x2C]) (s := [0x2C, 0x2C]) (d := [0x2C])
    (by simp [StringAt, twoStrings] : StringAt _ 0 _) (by simp [StringAt, twoStrings] : StringAt _ 3 _) (by simp) none
  exact h.mpr (by simp)

/-- `"a,b"` along `","` gives NULL at once, and not `"a"` and `"b"`. -/
theorem strtok_no_token : runsOutside [0x2C] [0x61, 0x2C, 0x62] = [[0x61], [0x62]] ∧
    Called 4 (some 0) ⟨twoStrings [0x61, 0x2C, 0x62] [0x2C], none⟩ none ⟨twoStrings [0x61, 0x2C, 0x62] [0x2C], some 3⟩ ∧
    ¬ Splits 4 0 ⟨twoStrings [0x61, 0x2C, 0x62] [0x2C], none⟩ (runsOutside [0x2C] [0x61, 0x2C, 0x62]) := by
  have hs : StringAt (twoStrings [0x61, 0x2C, 0x62] [0x2C]) 0 [0x61, 0x2C, 0x62] := by simp [StringAt, twoStrings]
  have hd : twoStrings [0x61, 0x2C, 0x62] [0x2C] 4 ≠ 0 := by decide
  have hcall := called_string hd hs none
  refine ⟨by decide, hcall, ?_⟩
  rintro ⟨s', ht, -⟩
  rw [show runsOutside [0x2C] [0x61, 0x2C, 0x62] = [[0x61], [0x62]] by decide] at ht
  cases ht with
  | token h _ _ => simpa using hcall.unique h

end OpenGpos.Libc.Strings
