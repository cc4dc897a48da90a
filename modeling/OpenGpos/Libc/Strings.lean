/-
  OpenGpos.Libc.Strings — the routines of libc/src/string that the file system calls. A
  `char *` is a buffer and an index into it; a string that the code only walks forward
  (a path, a name on the stack) is the list of its characters up to the NUL.
-/
import OpenGpos.Lib.Bytes

namespace OpenGpos.Libc.Strings

open OpenGpos.Lib.Bytes

/-- `strlen(s + i)`, for a string that ends within `n` bytes. -/
def strlen (s : Mem) : Nat → Nat → Nat
  | _, 0 => 0
  | i, n + 1 => if s i = 0 then 0 else strlen s (i + 1) n + 1

/-- The copying loop of `strncat`, with `destination` and `source` where they point by then. -/
def strncatLoop (source : Mem) : Mem → Nat → Nat → Nat → Mem
  | dest, d, _, 0 => store8 dest d 0
  | dest, d, s, num + 1 =>
    if source s = 0 then store8 dest d 0
    else strncatLoop source (store8 dest d (source s)) (d + 1) (s + 1) num

/-- `strncat` onto a destination of `size` bytes. -/
def strncat (dest : Mem) (size : Nat) (source : Mem) (s num : Nat) : Mem :=
  strncatLoop source dest (strlen dest 0 size) s num

/-- `strcmp(str1, str2 + i)`. -/
def strcmp (str2 : Mem) : List UInt8 → Nat → Int
  | [], i => 0 - (str2 i).toNat
  | c :: cs, i =>
    if c ≠ 0 ∧ str2 i ≠ 0 ∧ c = str2 i then strcmp str2 cs (i + 1) else c.toNat - (str2 i).toNat

/-- The characters of the string at `s + i`, at most `n` of them. -/
def cstring (s : Mem) : Nat → Nat → List UInt8
  | _, 0 => []
  | i, n + 1 => if s i = 0 then [] else s i :: cstring s (i + 1) n

/-- `strcmp` finds no difference exactly if the strings are the same. -/
theorem strcmp_eq_zero {s : Mem} {name : List UInt8} (h0 : ∀ c ∈ name, c ≠ 0) : ∀ {i n : Nat}, name.length < n →
    (strcmp s name i = 0 ↔ cstring s i n = name) := by
  induction name with
  | nil =>
    intro i n hn
    obtain ⟨n, rfl⟩ := Nat.exists_eq_add_one_of_ne_zero (show n ≠ 0 by simp only [List.length_nil] at hn; omega)
    have hz : strcmp s [] i = 0 ↔ s i = 0 := by
      rw [strcmp, ← UInt8.toNat_inj]
      show (0 - ((s i).toNat : Int)) = 0 ↔ (s i).toNat = 0
      omega
    rw [hz, cstring]
    by_cases hs : s i = 0 <;> simp [hs]
  | cons c cs ih =>
    intro i n hn
    simp only [List.length_cons] at hn
    obtain ⟨n, rfl⟩ := Nat.exists_eq_add_one_of_ne_zero (show n ≠ 0 by omega)
    have hc : c ≠ 0 := h0 c List.mem_cons_self
    have hcs := ih (fun x hx => h0 x (List.mem_cons_of_mem _ hx)) (i := i + 1) (n := n) (by omega)
    rw [strcmp, cstring]
    by_cases he : c = s i
    · subst he
      rw [if_pos ⟨hc, hc, rfl⟩, if_neg hc, hcs]
      simp
    · -- the characters differ
      have hne : ¬ (c.toNat : Int) - (s i).toNat = 0 := by
        intro hd
        exact he (UInt8.toNat_inj.mp (by omega))
      rw [if_neg fun h => he h.2.2]
      constructor
      · exact fun h => absurd h hne
      · intro h
        by_cases hs : s i = 0
        · rw [if_pos hs] at h; cases h
        · rw [if_neg hs, List.cons.injEq] at h
          exact absurd h.1.symm he

/-- `s` with a NUL behind it, written over the start of `buf`. -/
def putStr (buf : Mem) (s : List UInt8) : Mem := fun i => if i < s.length then s.getD i 0 else if i = s.length then 0 else buf i

/-- A string that was written is read back. -/
theorem cstring_putStr {s : List UInt8} (h0 : ∀ c ∈ s, c ≠ 0) (buf : Mem) (n : Nat) : ∀ {i : Nat}, i ≤ s.length →
    s.length < i + n → cstring (putStr buf s) i n = s.drop i := by
  induction n with
  | zero => intro i hi hn; omega
  | succ n ih =>
    intro i hi hn
    rw [cstring]
    by_cases hlt : i < s.length
    · have hc : putStr buf s i = s[i] := by
        rw [putStr, if_pos hlt, List.getD_eq_getElem?_getD, List.getElem?_eq_getElem hlt]; rfl
      rw [hc, if_neg (h0 _ (List.getElem_mem hlt)), ih (by omega) (by omega), List.drop_eq_getElem_cons hlt]
    · obtain rfl : i = s.length := by omega
      have hc : putStr buf s s.length = 0 := by simp [putStr]
      rw [if_pos hc, List.drop_length]

/-! ## Strings in place -/

/-- `s + i` is the string `t`, with its NUL. -/
def StringAt (s : Mem) : Nat → List UInt8 → Prop
  | i, [] => s i = 0
  | i, c :: cs => s i = c ∧ c ≠ 0 ∧ StringAt s (i + 1) cs

theorem StringAt.congr {s s' : Mem} {t : List UInt8} {i : Nat} (h : StringAt s i t)
    (hs : ∀ j, i ≤ j → j ≤ i + t.length → s' j = s j) : StringAt s' i t := by
  induction t generalizing i with
  | nil =>
    show s' i = 0
    rw [hs i (Nat.le_refl i) (Nat.le_add_right i _)]
    exact h
  | cons c cs ih =>
    obtain ⟨hc, h0, hcs⟩ := h
    rw [List.length_cons] at hs
    refine ⟨?_, h0, ih hcs fun j h1 h2 => hs j (by omega) (by omega)⟩
    rw [hs i (Nat.le_refl i) (by omega)]
    exact hc

/-- A NUL that is written at the end of a string or behind it. -/
theorem StringAt.nul {s : Mem} {t : List UInt8} {i p : Nat} (h : StringAt s i t) (hp : i + t.length ≤ p) :
    StringAt (store8 s p 0) i t := by
  induction t generalizing i with
  | nil =>
    show store8 s p 0 i = 0
    by_cases hi : i = p
    · rw [hi]
      exact store8_same ..
    · rw [store8_out hi]
      exact h
  | cons c cs ih =>
    obtain ⟨hc, h0, hcs⟩ := h
    rw [List.length_cons] at hp
    refine ⟨?_, h0, ih hcs (by omega)⟩
    rw [store8_out (by omega)]
    exact hc

/-- Two strings of which the second starts where the first ends. -/
theorem StringAt.append {s s' : Mem} {t u : List UInt8} {i : Nat} (h : StringAt s i t)
    (hs : ∀ j, i ≤ j → j < i + t.length → s' j = s j) (hu : StringAt s' (i + t.length) u) : StringAt s' i (t ++ u) := by
  induction t generalizing i with
  | nil => exact hu
  | cons c cs ih =>
    obtain ⟨hc, h0, hcs⟩ := h
    rw [List.length_cons] at hs hu
    refine ⟨?_, h0, ih hcs (fun j h1 h2 => hs j (by omega) (by omega)) ?_⟩
    · rw [hs i (Nat.le_refl i) (by omega)]
      exact hc
    · rw [show i + 1 + cs.length = i + (cs.length + 1) by omega]
      exact hu

theorem StringAt.cstring {s : Mem} {t : List UInt8} {i n : Nat} (h : StringAt s i t) (hn : t.length < n) :
    cstring s i n = t := by
  induction t generalizing i n with
  | nil =>
    obtain ⟨n, rfl⟩ := Nat.exists_eq_add_one_of_ne_zero (show n ≠ 0 by simp only [List.length_nil] at hn; omega)
    exact if_pos h
  | cons c cs ih =>
    rw [List.length_cons] at hn
    obtain ⟨n, rfl⟩ := Nat.exists_eq_add_one_of_ne_zero (show n ≠ 0 by omega)
    obtain ⟨hc, h0, hcs⟩ := h
    rw [OpenGpos.Libc.Strings.cstring, hc, if_neg h0, ih hcs (by omega)]

theorem StringAt.strlen {s : Mem} {t : List UInt8} {i n : Nat} (h : StringAt s i t) (hn : t.length < n) :
    strlen s i n = t.length := by
  induction t generalizing i n with
  | nil =>
    obtain ⟨n, rfl⟩ := Nat.exists_eq_add_one_of_ne_zero (show n ≠ 0 by simp only [List.length_nil] at hn; omega)
    exact if_pos h
  | cons c cs ih =>
    rw [List.length_cons] at hn ⊢
    obtain ⟨n, rfl⟩ := Nat.exists_eq_add_one_of_ne_zero (show n ≠ 0 by omega)
    obtain ⟨hc, h0, hcs⟩ := h
    rw [OpenGpos.Libc.Strings.strlen, hc, if_neg h0, ih hcs (by omega)]

/-- Fewer characters are the first ones of more. -/
theorem cstring_take (s : Mem) (i : Nat) {m n : Nat} (h : m ≤ n) : cstring s i m = (cstring s i n).take m := by
  induction n generalizing i m with
  | zero =>
    obtain rfl := Nat.le_zero.mp h
    rfl
  | succ n ih =>
    cases m with
    | zero => rfl
    | succ m =>
      rw [cstring, cstring]
      by_cases hs : s i = 0
      · rw [if_pos hs, if_pos hs]
        rfl
      · rw [if_neg hs, if_neg hs, List.take_succ_cons, ih (i + 1) (Nat.le_of_succ_le_succ h)]

theorem cstring_congr {s s' : Mem} {i n : Nat} (h : ∀ j, i ≤ j → j < i + n → s' j = s j) : cstring s' i n = cstring s i n := by
  induction n generalizing i with
  | zero => rfl
  | succ n ih =>
    rw [cstring, cstring, h i (Nat.le_refl i) (by omega), ih fun j h1 h2 => h j (by omega) (by omega)]

/-- What the copying loop writes: the characters of the source, and a NUL. -/
theorem strncatLoop_spec (source : Mem) (num : Nat) : ∀ (dest : Mem) (d s : Nat),
    StringAt (strncatLoop source dest d s num) d (cstring source s num) ∧
      ∀ j < d, strncatLoop source dest d s num j = dest j := by
  induction num with
  | zero => exact fun dest d s => ⟨store8_same .., fun j hj => store8_out (Nat.ne_of_lt hj)⟩
  | succ num ih =>
    intro dest d s
    rw [strncatLoop, cstring]
    by_cases hs : source s = 0
    · rw [if_pos hs, if_pos hs]
      exact ⟨store8_same .., fun j hj => store8_out (Nat.ne_of_lt hj)⟩
    · rw [if_neg hs, if_neg hs]
      obtain ⟨hstr, hout⟩ := ih (store8 dest d (source s)) (d + 1) (s + 1)
      refine ⟨⟨?_, hs, hstr⟩, fun j hj => ?_⟩
      · rw [hout d (Nat.lt_succ_self d)]
        exact store8_same ..
      · rw [hout j (by omega)]
        exact store8_out (Nat.ne_of_lt hj)

/-- `strncat` appends at most `num` characters. -/
theorem strncat_spec {dest : Mem} {t : List UInt8} {size : Nat} (h : StringAt dest 0 t) (ht : t.length < size) (source : Mem)
    (s num : Nat) : StringAt (strncat dest size source s num) 0 (t ++ cstring source s num) := by
  unfold strncat
  rw [h.strlen ht]
  obtain ⟨hstr, hout⟩ := strncatLoop_spec source num dest t.length s
  apply h.append
  · intro j _ hj
    exact hout j (by omega)
  · rw [Nat.zero_add]
    exact hstr

/-- What is in the place of the first character does not matter. -/
theorem strncatLoop_head (source dest : Mem) (d s num : Nat) (c : UInt8) :
    strncatLoop source (store8 dest d c) d s num = strncatLoop source dest d s num := by
  cases num with
  | zero => exact store8_store8 ..
  | succ num =>
    rw [strncatLoop, strncatLoop, store8_store8, store8_store8]

/-- Characters appended behind those that were written. -/
theorem strncatLoop_putStr (source buf : Mem) (num : Nat) : ∀ (t : List UInt8) (s : Nat),
    strncatLoop source (putStr buf t) t.length s num = putStr buf (t ++ cstring source s num) := by
  have hnul : ∀ t : List UInt8, store8 (putStr buf t) t.length 0 = putStr buf t := by
    intro t
    funext i
    by_cases h : i = t.length
    · subst h
      rw [store8_same]
      simp [putStr]
    · exact store8_out h
  have hnext : ∀ (t : List UInt8) (c : UInt8),
      store8 (store8 (putStr buf t) t.length c) (t.length + 1) 0 = putStr buf (t ++ [c]) := by
    intro t c
    funext i
    simp only [store8, putStr, List.length_append, List.length_singleton]
    rcases Nat.lt_trichotomy i t.length with h | rfl | h
    · rw [if_neg (by omega), if_neg (by omega), if_pos h, if_pos (by omega), List.getD_append _ _ _ _ h]
    · rw [if_neg (by omega), if_pos rfl, if_pos (by omega), List.getD_append_right _ _ _ _ (Nat.le_refl _), Nat.sub_self]
      rfl
    · by_cases h1 : i = t.length + 1
      · rw [if_pos h1, if_neg (by omega), if_pos h1]
      · rw [if_neg h1, if_neg (by omega), if_neg (by omega), if_neg (by omega), if_neg (by omega), if_neg h1]
  induction num with
  | zero =>
    intro t s
    rw [strncatLoop, cstring, List.append_nil]
    exact hnul t
  | succ num ih =>
    intro t s
    rw [strncatLoop, cstring]
    by_cases hs : source s = 0
    · rw [if_pos hs, if_pos hs, List.append_nil]
      exact hnul t
    · have h := ih (t ++ [source s]) (s + 1)
      rw [List.length_append, List.length_singleton, ← hnext, strncatLoop_head, List.append_assoc] at h
      rw [if_neg hs, if_neg hs, h]
      rfl

/-- What is read back of characters that were written: those before the first NUL. -/
theorem stringAt_putStr (buf : Mem) (s : List UInt8) : ∀ {i : Nat}, i ≤ s.length →
    StringAt (putStr buf s) i ((s.drop i).takeWhile (· != 0)) := by
  intro i hi
  induction hk : s.length - i generalizing i with
  | zero =>
    obtain rfl : i = s.length := by omega
    rw [List.drop_length]
    show putStr buf s s.length = 0
    simp [putStr]
  | succ k ih =>
    have hlt : i < s.length := by omega
    have hc : putStr buf s i = s[i] := by
      rw [putStr, if_pos hlt, List.getD_eq_getElem?_getD, List.getElem?_eq_getElem hlt]
      rfl
    rw [List.drop_eq_getElem_cons hlt, List.takeWhile_cons]
    by_cases h0 : s[i] = 0
    · rw [if_neg (by simp [h0])]
      exact hc.trans h0
    · rw [if_pos (by simpa using h0)]
      exact ⟨hc, h0, ih hlt (by omega)⟩

end OpenGpos.Libc.Strings
