/-
  OpenGpos.Fat.ShortNames — when two short names give the same string. `fat_sfn_to_string` takes
  either field up to its first space, so a difference behind a space inside a field is not seen
  (`short_names_distinct_iff`).
-/
import OpenGpos.Fat.LongName

namespace OpenGpos.Fat

open OpenGpos.Libc.Strings

/-- Bytes that may stand in a short name, and none of the separators; it does not start with a space. -/
structure LegalName (e : Buf) : Prop where
  printable : ∀ i < 11, 0x20 ≤ e i
  no_separator : ∀ i < 11, e i ≠ 0x2E ∧ e i ≠ 0x2F
  starts : e 0 ≠ 0x20

/-- Some byte of the name or of the extension is another one, and no space comes before it there. -/
def DifferInSight (a b : Buf) : Prop :=
  (∃ k < 8, a k ≠ b k ∧ ∀ j < k, a j ≠ 0x20) ∨ ∃ k < 3, a (8 + k) ≠ b (8 + k) ∧ ∀ j < k, a (8 + j) ≠ 0x20

/-! ## Fields -/

/-- A field of `n` bytes up to its first space. -/
def field (f : Nat → UInt8) (n : Nat) : List UInt8 := ((List.range n).map f).takeWhile (· != 0x20)

theorem field_succ (f : Nat → UInt8) (n : Nat) :
    field f (n + 1) = if f 0 = 0x20 then [] else f 0 :: field (fun i => f (i + 1)) n := by
  rw [field, List.range_succ_eq_map, List.map_cons, List.map_map, List.takeWhile_cons]
  by_cases h : f 0 = 0x20
  · simp [h]
  · simp [h, field, Function.comp_def]

theorem mem_field {f : Nat → UInt8} {n : Nat} {c : UInt8} (h : c ∈ field f n) : ∃ i < n, f i = c := by
  obtain ⟨i, hi, rfl⟩ := List.mem_map.mp ((List.takeWhile_prefix _).subset h)
  exact ⟨i, List.mem_range.mp hi, rfl⟩

theorem field_eq_nil {f : Nat → UInt8} {n : Nat} : field f (n + 1) = [] ↔ f 0 = 0x20 := by
  rw [field_succ]
  by_cases h : f 0 = 0x20 <;> simp [h]

/-- Two fields differ where their bytes do, up to the first space. -/
theorem field_ne_iff (n : Nat) : ∀ f g : Nat → UInt8,
    field f n ≠ field g n ↔ ∃ k < n, f k ≠ g k ∧ ∀ j < k, f j ≠ 0x20 := by
  induction n with
  | zero =>
    intro f g
    simp [field]
  | succ n ih =>
    intro f g
    rw [field_succ, field_succ]
    by_cases h : f 0 = g 0
    · -- the difference is further on
      have hstep : (∃ k < n + 1, f k ≠ g k ∧ ∀ j < k, f j ≠ 0x20) ↔
          f 0 ≠ 0x20 ∧ ∃ k < n, f (k + 1) ≠ g (k + 1) ∧ ∀ j < k, f (j + 1) ≠ 0x20 := by
        constructor
        · rintro ⟨k, hk, hne, hj⟩
          cases k with
          | zero => exact absurd h hne
          | succ k => exact ⟨hj 0 (by omega), k, by omega, hne, fun j hjk => hj (j + 1) (by omega)⟩
        · rintro ⟨h0, k, hk, hne, hj⟩
          refine ⟨k + 1, by omega, hne, fun j hjk => ?_⟩
          cases j with
          | zero => exact h0
          | succ j => exact hj j (by omega)
      rw [hstep, ← ih, ← h]
      by_cases h0 : f 0 = 0x20
      · simp [h0]
      · simp [h0]
    · have hdiff : ∃ k < n + 1, f k ≠ g k ∧ ∀ j < k, f j ≠ 0x20 := ⟨0, by omega, h, fun j hj => by omega⟩
      refine iff_of_true ?_ hdiff
      by_cases h0 : f 0 = 0x20
      · have h1 : g 0 ≠ 0x20 := fun h1 => h (h0.trans h1.symm)
        rw [if_pos h0, if_neg h1]
        simp
      · by_cases h1 : g 0 = 0x20
        · rw [if_neg h0, if_pos h1]
          simp
        · rw [if_neg h0, if_neg h1]
          exact fun he => h (List.cons.inj he).1

/-! ## Names -/

/-- The extension with its dot, if there is one. -/
def dotted (ext : List UInt8) : List UInt8 := if ext = [] then [] else 0x2E :: ext

theorem dotted_inj {x y : List UInt8} : dotted x = dotted y ↔ x = y := by
  constructor
  · intro h
    by_cases hx : x = []
    · by_cases hy : y = []
      · rw [hx, hy]
      · simp [dotted, hx, hy] at h
    · by_cases hy : y = []
      · simp [dotted, hx, hy] at h
      · simpa [dotted, hx, hy] using h
  · exact fun h => by rw [h]

theorem sfnChars_eq (e : Buf) : sfnChars e = field e 8 ++ dotted (field (fun j => e (8 + j)) 3) := by
  have hext : field (fun j => e (8 + j)) 3 = [] ↔ e 8 = 0x20 := field_eq_nil
  unfold sfnChars dotted
  by_cases h : e 8 = 0x20
  · rw [if_pos (hext.mpr h), h]
    rfl
  · rw [if_neg fun hn => h (hext.mp hn), if_pos (bne_iff_ne.mpr h)]
    rfl

/-- What stands before the first dot, and what stands behind it. -/
theorem dotted_append_inj {a b x y : List UInt8} (ha : 0x2E ∉ a) (hb : 0x2E ∉ b) :
    a ++ dotted x = b ++ dotted y ↔ a = b ∧ x = y := by
  have hbase : ∀ {a x : List UInt8}, 0x2E ∉ a → (a ++ dotted x).takeWhile (· != 0x2E) = a := by
    intro a x ha
    rw [List.takeWhile_append_of_pos fun c hc => by simpa using fun h : c = 0x2E => ha (h ▸ hc)]
    by_cases hx : x = []
    · simp [dotted, hx]
    · simp [dotted, hx]
  constructor
  · intro h
    have hab : a = b := by rw [← hbase (x := x) ha, h, hbase hb]
    subst hab
    exact ⟨rfl, dotted_inj.mp (List.append_cancel_left h)⟩
  · rintro ⟨rfl, rfl⟩
    rfl

section
variable {a b : Buf}

theorem LegalName.no_dot (h : LegalName a) : 0x2E ∉ field a 8 := by
  intro hc
  obtain ⟨i, hi, he⟩ := mem_field hc
  exact (h.no_separator i (by omega)).1 he

theorem LegalName.no_nul (h : LegalName a) : ∀ c ∈ sfnChars a, c ≠ 0 := by
  intro c hc h0
  subst h0
  have hbyte : ∀ i < 11, a i ≠ 0 := by
    intro i hi h0
    have hp := h.printable i hi
    rw [h0] at hp
    exact absurd hp (by decide)
  rw [sfnChars_eq, List.mem_append] at hc
  rcases hc with hc | hc
  · obtain ⟨i, hi, he⟩ := mem_field hc
    exact hbyte i (by omega) he
  · unfold dotted at hc
    split at hc
    · cases hc
    · rcases List.mem_cons.mp hc with he | hc
      · exact absurd he (by decide)
      · obtain ⟨i, hi, he⟩ := mem_field hc
        exact hbyte (8 + i) (by omega) he

theorem LegalName.cstring (h : LegalName a) (out : Buf) : cstring (fatSfnToString a out) 0 256 = sfnChars a := by
  rw [fatSfnToString_spec, shortName, List.takeWhile_eq_self_iff]
  exact fun c hc => by simpa using h.no_nul c hc

theorem sfnChars_ne_iff (ha : LegalName a) (hb : LegalName b) : sfnChars a ≠ sfnChars b ↔ DifferInSight a b := by
  rw [sfnChars_eq, sfnChars_eq, Ne, dotted_append_inj ha.no_dot hb.no_dot, not_and_or]
  exact or_congr (field_ne_iff 8 _ _) (field_ne_iff 3 _ _)

end

/-- Two short names give different strings, and `strcmp` tells them apart, exactly if they differ at
    a byte that no space hides. -/
theorem short_names_distinct_iff {a b : Buf} (ha : LegalName a) (hb : LegalName b) (out out' : Buf) :
    (cstring (fatSfnToString a out) 0 256 ≠ cstring (fatSfnToString b out') 0 256 ↔ DifferInSight a b) ∧
      (strcmp (fatSfnToString a out) (cstring (fatSfnToString b out') 0 256) 0 ≠ 0 ↔ DifferInSight a b) := by
  have hlen : (sfnChars b).length < 256 := Nat.lt_of_le_of_lt (length_sfnChars b) (by decide)
  rw [hb.cstring, Ne, Ne, strcmp_eq_zero hb.no_nul hlen, ha.cstring, and_self]
  exact sfnChars_ne_iff ha hb

/-- A name of eleven characters, with whatever behind it. -/
def nameField (s : List UInt8) : Buf := fun i => s.getD i 0

/-- `AB      TXT` and `AC      TXT`. -/
theorem short_names_distinct_ab_ac :
    let a := nameField [0x41, 0x42, 0x20, 0x20, 0x20, 0x20, 0x20, 0x20, 0x54, 0x58, 0x54]
    let b := nameField [0x41, 0x43, 0x20, 0x20, 0x20, 0x20, 0x20, 0x20, 0x54, 0x58, 0x54]
    cstring (fatSfnToString a fun _ => 0) 0 256 ≠ cstring (fatSfnToString b fun _ => 0) 0 256 ∧
      strcmp (fatSfnToString a fun _ => 0) (cstring (fatSfnToString b fun _ => 0) 0 256) 0 ≠ 0 := by
  intro a b
  have hsight : DifferInSight a b := by
    unfold DifferInSight
    decide
  have h := short_names_distinct_iff (a := a) (b := b) ⟨by decide, by decide, by decide⟩
      ⟨by decide, by decide, by decide⟩
    (fun _ => 0) fun _ => 0
  exact ⟨h.1.mpr hsight, h.2.mpr hsight⟩

/-- `A B     TXT` and `A C     TXT` are two names with one string, `A.TXT`. -/
theorem inner_space_hides :
    let a := nameField [0x41, 0x20, 0x42, 0x20, 0x20, 0x20, 0x20, 0x20, 0x54, 0x58, 0x54]
    let b := nameField [0x41, 0x20, 0x43, 0x20, 0x20, 0x20, 0x20, 0x20, 0x54, 0x58, 0x54]
    LegalName a ∧ LegalName b ∧ a 2 ≠ b 2 ∧
      cstring (fatSfnToString a fun _ => 0) 0 256 = cstring (fatSfnToString b fun _ => 0) 0 256 := by
  refine ⟨⟨by decide, by decide, by decide⟩, ⟨by decide, by decide, by decide⟩, by decide, ?_⟩
  decide +kernel

end OpenGpos.Fat
