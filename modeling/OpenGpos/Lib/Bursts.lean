/-
  OpenGpos.Lib.Bursts — what a check of `Lib.Crc` detects. If the lowest coefficient of the
  polynomial is 1 the register can be run backwards, so two messages with one check that agree in
  front of and behind a window of `w` bits agree in it (`crcBits_burst`), and so do messages that
  differ in at most two bits closer to each other than the period of a lone bit (`crcBits_two`).
-/
import OpenGpos.Lib.Crc

namespace OpenGpos.Lib.Crc

variable {w k : Nat} {poly : BitVec w}

/-! ## The register run backwards -/

theorem crcBits_append (poly c : BitVec w) (l m : List Bool) :
    crcBits poly c (l ++ m) = crcBits poly (crcBits poly c l) m := List.foldl_append ..

/-- The lowest bit of a register that was shifted says whether the polynomial was added. -/
theorem bitStep_getLsbD_zero (hp : poly.getLsbD 0 = true) (c : BitVec w) (bit : Bool) :
    (bitStep poly c bit).getLsbD 0 = (c.msb ^^ bit) := by
  rw [bitStep_eq, BitVec.getLsbD_xor, BitVec.getLsbD_shiftLeft]
  cases c.msb ^^ bit <;> simp [mask, hp]

theorem shiftLeft_one_inj {c d : BitVec w} (h : c <<< 1 = d <<< 1) (hm : c.msb = d.msb) : c = d := by
  apply BitVec.eq_of_getMsbD_eq
  intro i hi
  cases i with
  | zero => exact hm
  | succ i =>
    have hi' := congrArg (fun x => x.getMsbD i) h
    simp only [BitVec.getMsbD_shiftLeft] at hi'
    exact hi'

theorem bitStep_inj (hp : poly.getLsbD 0 = true) {c d : BitVec w} {bit : Bool}
    (h : bitStep poly c bit = bitStep poly d bit) : c = d := by
  have hbit := congrArg (fun x => x.getLsbD 0) h
  simp only [bitStep_getLsbD_zero hp] at hbit
  have hm : c.msb = d.msb := by
    revert hbit
    cases c.msb <;> cases d.msb <;> cases bit <;> simp
  refine shiftLeft_one_inj ?_ hm
  rw [bitStep_eq, bitStep_eq, hm] at h
  exact BitVec.xor_left_inj _ |>.mp h

theorem crcBits_inj (hp : poly.getLsbD 0 = true) (bits : List Bool) : ∀ {c d : BitVec w},
    crcBits poly c bits = crcBits poly d bits → c = d := by
  induction bits with
  | nil => exact fun h => h
  | cons b bits ih => exact fun h => bitStep_inj hp (ih h)

/-! ## One window -/

theorem onTop_inj (hk : k ≤ w) {a b : BitVec k} (h : onTop w a = onTop w b) : a = b := by
  apply BitVec.eq_of_getMsbD_eq
  intro i _
  rw [← getMsbD_onTop hk a, ← getMsbD_onTop hk b, h]

theorem entry_inj (hp : poly.getLsbD 0 = true) (hk : k ≤ w) {a b : BitVec k} (h : entry poly a = entry poly b) : a = b :=
  onTop_inj hk (crcBits_inj hp _ h)

/-- From one register, different groups lead to different registers. -/
theorem crcBits_msbFirst_inj (hp : poly.getLsbD 0 = true) (hk : k ≤ w) {c : BitVec w} {a b : BitVec k}
    (h : crcBits poly c (msbFirst a) = crcBits poly c (msbFirst b)) : a = b := by
  rw [crcBits_group poly hk, crcBits_group poly hk] at h
  have he := entry_inj hp hk ((BitVec.xor_right_inj _).mp h)
  exact (BitVec.xor_right_inj _).mp he

theorem exists_msbFirst {l : List Bool} (h : l.length = k) : ∃ b : BitVec k, msbFirst b = l := by
  subst h
  refine ⟨BitVec.ofBoolListBE l, List.ext_getElem (by rw [length_msbFirst]) fun i _ hi => ?_⟩
  simp [msbFirst, BitVec.getMsbD_ofBoolListBE, List.getD_eq_getElem?_getD, List.getElem?_eq_getElem hi]

/-- Every error confined to `w` consecutive bits is detected. -/
theorem crcBits_burst (hp : poly.getLsbD 0 = true) (init : BitVec w) (pre post : List Bool) {mid mid' : List Bool}
    (hl : mid.length = mid'.length) (hw : mid.length ≤ w)
    (h : crcBits poly init (pre ++ (mid ++ post)) = crcBits poly init (pre ++ (mid' ++ post))) : mid = mid' := by
  rw [crcBits_append, crcBits_append, crcBits_append, crcBits_append] at h
  obtain ⟨b, hb⟩ := exists_msbFirst (k := mid.length) rfl
  obtain ⟨b', hb'⟩ := exists_msbFirst hl.symm
  have hmid := crcBits_inj hp post h
  rw [← hb, ← hb'] at hmid
  rw [← hb, ← hb', crcBits_msbFirst_inj hp hw hmid]

/-- The register behind its own bits is empty. -/
theorem crcBits_self (poly c : BitVec w) : crcBits poly c (msbFirst c) = 0#w := by
  rw [crcBits_cancel, length_msbFirst]
  · rw [BitVec.shiftLeft_eq_zero (Nat.le_refl w)]
  · intro i hi
    simp [msbFirst]

/-! ## Two bits -/

/-- Messages and registers are added bit by bit. -/
theorem crcBits_zipWith (poly : BitVec w) (l : List Bool) : ∀ (m : List Bool) (c d : BitVec w), l.length = m.length →
    crcBits poly (c ^^^ d) (List.zipWith (· ^^ ·) l m) = crcBits poly c l ^^^ crcBits poly d m := by
  induction l with
  | nil =>
    intro m c d h
    obtain rfl := List.length_eq_zero_iff.mp h.symm
    rfl
  | cons x l ih =>
    intro m c d h
    cases m with
    | nil => cases h
    | cons y m =>
      show crcBits poly (bitStep poly (c ^^^ d) (x ^^ y)) (List.zipWith (· ^^ ·) l m) = _
      rw [bitStep_xor, ih m _ _ (Nat.succ.inj h)]
      rfl

/-- A register with nothing but its top bit. -/
def loneBit (w : Nat) : BitVec w := BitVec.intMin w

/-- Fewer than `n` shifts never bring a lone bit back. -/
def PeriodFrom (poly : BitVec w) (n : Nat) : Prop :=
  ∀ d, 0 < d → d < n → crcBits poly (loneBit w) (List.replicate d false) ≠ loneBit w

theorem bitStep_zero_false (poly : BitVec w) : bitStep poly 0#w false = 0#w := by
  rw [bitStep_eq]
  simp [mask]

theorem bitStep_zero_true (poly : BitVec w) : bitStep poly 0#w true = poly := by
  rw [bitStep_eq]
  simp [mask]

theorem bitStep_loneBit (poly : BitVec w) (hw : 0 < w) : bitStep poly (loneBit w) false = poly := by
  have hm : (loneBit w).msb = true := by
    rw [loneBit, BitVec.msb_intMin]
    exact decide_eq_true hw
  have hs : loneBit w <<< 1 = 0#w := by
    apply BitVec.eq_of_getMsbD_eq
    intro i _
    rw [BitVec.getMsbD_shiftLeft, loneBit, BitVec.getMsbD_intMin]
    simp
  rw [bitStep_eq, hm, hs]
  simp [mask]

theorem bitStep_loneBit_true (poly : BitVec w) (hw : 0 < w) : bitStep poly (loneBit w) true = 0#w := by
  have h := bitStep_xor poly (loneBit w) 0#w false true
  rw [bitStep_loneBit poly hw, bitStep_zero_true] at h
  simpa using h

/-- Lists with no, and with one bit set. -/
theorem eq_replicate_of_count_zero {l : List Bool} (h : l.count true = 0) : l = List.replicate l.length false :=
  List.eq_replicate_iff.mpr ⟨rfl, fun b hb => by
    cases b with
    | false => rfl
    | true => exact absurd hb (List.count_eq_zero.mp h)⟩

theorem split_of_count_one {l : List Bool} (h : l.count true = 1) :
    ∃ m n, l = List.replicate m false ++ true :: List.replicate n false ∧ m < l.length := by
  induction l with
  | nil => cases h
  | cons b l ih =>
    cases b with
    | true =>
      rw [List.count_cons_self] at h
      exact ⟨0, l.length, congrArg (List.cons true) (eq_replicate_of_count_zero (Nat.succ.inj h)), Nat.succ_pos _⟩
    | false =>
      rw [List.count_cons_of_ne (by decide)] at h
      obtain ⟨m, n, hl, hm⟩ := ih h
      refine ⟨m + 1, n, ?_, Nat.succ_lt_succ hm⟩
      rw [List.replicate_succ, List.cons_append, ← hl]

theorem crcBits_zero_replicate (poly : BitVec w) (n : Nat) : crcBits poly 0#w (List.replicate n false) = 0#w := by
  induction n with
  | zero => rfl
  | succ n ih =>
    show crcBits poly (bitStep poly 0#w false) (List.replicate n false) = _
    rw [bitStep_zero_false]
    exact ih

/-- An error of one or two bits leaves something in an empty register. -/
theorem crcBits_error (hp : poly.getLsbD 0 = true) {n : Nat} (hper : PeriodFrom poly n) (e : List Bool) :
    e.length ≤ n → 0 < e.count true → e.count true ≤ 2 → crcBits poly 0#w e ≠ 0#w := by
  have hw : 0 < w := by
    by_contra h0
    obtain rfl : w = 0 := by omega
    rw [BitVec.getLsbD_of_ge _ _ (Nat.le_refl 0)] at hp
    cases hp
  have hpoly : poly ≠ 0#w := by
    rintro rfl
    simp at hp
  induction e with
  | nil => exact fun _ h _ => absurd h (by decide)
  | cons b e ih =>
    intro hl h0 h2
    rw [List.length_cons] at hl
    cases b with
    | false =>
      rw [List.count_cons_of_ne (by decide)] at h0 h2
      show crcBits poly (bitStep poly 0#w false) e ≠ _
      rw [bitStep_zero_false]
      exact ih (by omega) h0 h2
    | true =>
      rw [List.count_cons_self] at h2
      show crcBits poly (bitStep poly 0#w true) e ≠ _
      rw [bitStep_zero_true]
      rcases Nat.eq_zero_or_pos (e.count true) with hz | h1
      · rw [eq_replicate_of_count_zero hz]
        intro h
        rw [← crcBits_zero_replicate poly e.length] at h
        exact hpoly (crcBits_inj hp _ h)
      · -- the second bit must meet a register with a lone bit
        obtain ⟨m, r, he, hm⟩ := split_of_count_one (show e.count true = 1 by omega)
        rw [he, crcBits_append]
        intro h
        have h' : crcBits poly (crcBits poly poly (List.replicate m false)) (true :: List.replicate r false) =
            crcBits poly (loneBit w) (true :: List.replicate r false) := by
          rw [h]
          show _ = crcBits poly (bitStep poly (loneBit w) true) _
          rw [bitStep_loneBit_true poly hw, crcBits_zero_replicate]
        have hback := crcBits_inj hp _ h'
        refine hper (m + 1) (Nat.succ_pos m) (by omega) ?_
        show crcBits poly (bitStep poly (loneBit w) false) (List.replicate m false) = _
        rw [bitStep_loneBit poly hw]
        exact hback

/-- Two messages of at most `n` bits with one check do not differ in one bit or two. -/
theorem crcBits_two (hp : poly.getLsbD 0 = true) {n : Nat} (hper : PeriodFrom poly n) (init : BitVec w) {l m : List Bool}
    (hl : l.length = m.length) (hn : l.length ≤ n) (h2 : (List.zipWith (· ^^ ·) l m).count true ≤ 2)
    (h : crcBits poly init l = crcBits poly init m) : (List.zipWith (· ^^ ·) l m).count true = 0 := by
  by_contra h0
  refine crcBits_error hp hper (List.zipWith (· ^^ ·) l m) ?_ (Nat.pos_of_ne_zero h0) h2 ?_
  · rw [List.length_zipWith]
    omega
  · have hx := crcBits_zipWith poly l m init init hl
    rw [BitVec.xor_self, h, BitVec.xor_self] at hx
    exact hx

/-! ## The period, computed -/

/-- `n` steps from `c`, none of which comes to `target`. -/
def avoids (poly target : BitVec w) : Nat → BitVec w → Bool
  | 0, _ => true
  | n + 1, c => c != target && avoids poly target n (bitStep poly c false)

theorem avoids_sound {target : BitVec w} : ∀ {n : Nat} {c : BitVec w}, avoids poly target n c = true →
    ∀ d < n, crcBits poly c (List.replicate d false) ≠ target := by
  intro n
  induction n with
  | zero => exact fun _ d hd => absurd hd (Nat.not_lt_zero d)
  | succ n ih =>
    intro c h d hd
    rw [avoids, Bool.and_eq_true, bne_iff_ne] at h
    cases d with
    | zero => exact h.1
    | succ d => exact ih h.2 d (Nat.lt_of_succ_lt_succ hd)

theorem periodFrom_of_avoids {n : Nat} (h : avoids poly (loneBit w) n (bitStep poly (loneBit w) false) = true) :
    PeriodFrom poly (n + 1) := by
  intro d h0 hd
  obtain ⟨d, rfl⟩ := Nat.exists_eq_add_one_of_ne_zero (show d ≠ 0 by omega)
  exact avoids_sound h d (by omega)

end OpenGpos.Lib.Crc
