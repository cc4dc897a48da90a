/-
  OpenGpos.Fat.Mixing — whose name it is that a listing reports. Only the checksum of the entry
  that starts a name is compared (`Taken`), and rows are joined by their number, whatever entry
  filled them. A reported name is the entry's own (`OwnName`) exactly where that makes no
  difference (`Unmixed`, `names_own_iff`).
-/
import OpenGpos.Fat.RoundTrip

namespace OpenGpos.Fat

/-- The name is the short one, or the text of the long-name entries directly before, numbers 1
    to `N`, each of them with the checksum of the short name. -/
def OwnName (passed : List Buf) (r : Buf) (name : List UInt8) : Prop :=
  name = shortName r ∨ ∃ N, 0 < N ∧ Sequence (fatSfnChecksum r) N passed ∧ name = (passed.take N).flatMap lfnText

/-- Going back over deleted entries and long-name entries with a number of a row one comes to an
    entry that starts a name, and this one has the checksum. -/
def Taken (sum : UInt8) : List Buf → Prop
  | [] => False
  | e :: passed =>
    if e 0 = 0xE5 then Taken sum passed
    else e 11 &&& 0x0F = 0x0F ∧ HasRow e ∧ if StartsName e then e 13 = sum else Taken sum passed

instance decidableTaken (sum : UInt8) : ∀ passed, Decidable (Taken sum passed)
  | [] => isFalse id
  | e :: passed =>
    have := decidableTaken sum passed
    inferInstanceAs (Decidable (if e 0 = 0xE5 then Taken sum passed
      else e 11 &&& 0x0F = 0x0F ∧ HasRow e ∧ if StartsName e then e 13 = sum else Taken sum passed))

/-- The `N` entries passed over last give the whole name: it fits, and of what was gathered
    before them nothing is joined. -/
structure Alone (l : LfnLocals) (passed : List Buf) (N : Nat) : Prop where
  room : ((passed.take N).flatMap lfnText).length ≤ 255
  /-- The rows that older entries make the code count. -/
  behind : ∀ i, N ≤ i → i < ((gathered l (passed.drop N)).count + UInt8.ofNat N).toNat →
    (gathered l (passed.drop N)).rows i = [] ∨ ((passed.take N).flatMap lfnText).length = 255
  /-- The count wraps at 256. -/
  counted : ∀ i, ((gathered l (passed.drop N)).count + UInt8.ofNat N).toNat ≤ i → i < N →
    (passed.map lfnText).getD i [] = []

/-- What was gathered is not taken for a name of `r`, or spells the short name, or is the name
    of `r` alone. -/
def Unmixed (l : LfnLocals) (passed : List Buf) (r : Buf) : Prop :=
  fatSfnChecksum r ≠ 0 → Taken (fatSfnChecksum r) passed →
    (gathered l passed).joined = shortName r ∨
    ∃ N, 0 < N ∧ Sequence (fatSfnChecksum r) N passed ∧ Alone l passed N

/-! ## Which names are taken -/

/-- The checksum in the iterator is that of the entry that started the name. -/
theorem gathered_sum {sum : UInt8} (h0 : sum ≠ 0) (l : LfnLocals) (passed : List Buf) :
    (gathered l passed).sum = sum ↔ Taken sum passed := by
  induction passed with
  | nil => exact iff_of_false (fun h => h0 h.symm) id
  | cons e passed ih =>
    have hdrop : ¬ (gathered l passed).drop.sum = sum := fun h => h0 h.symm
    rw [gathered, Gathered.look, Taken]
    by_cases h1 : e 0 = 0xE5
    · rw [if_pos h1, if_pos h1]
      exact ih
    rw [if_neg h1, if_neg h1]
    by_cases h2 : e 11 &&& 0x0F = 0x0F
    case neg =>
      rw [if_neg h2]
      exact iff_of_false hdrop fun h => h2 h.1
    rw [if_pos h2]
    by_cases hr : HasRow e
    case neg =>
      rw [if_neg fun h => hr h.1]
      exact iff_of_false hdrop fun h => hr h.2.1
    by_cases hs : StartsName e
    · rw [if_pos ⟨hr, Or.inl hs⟩, if_pos hs]
      have hsum : ((gathered l passed).add e).sum = e 13 := if_pos hs
      rw [hsum]
      exact ⟨fun h => ⟨h2, hr, h⟩, fun h => h.2.2⟩
    rw [if_neg hs]
    by_cases hg : (gathered l passed).sum = 0
    · -- an entry of no name: the code gives up what it has
      rw [if_neg fun h => h.2.elim hs fun hne => hne hg]
      refine iff_of_false hdrop fun h => h0 ?_
      rw [← ih.mpr h.2.2, hg]
    · rw [if_pos ⟨hr, Or.inr hg⟩]
      have hsum : ((gathered l passed).add e).sum = (gathered l passed).sum := if_neg hs
      rw [hsum, ih]
      exact ⟨fun h => ⟨h2, hr, h⟩, fun h => h.2.2⟩

/-- A name that is taken has at most 20 entries. -/
theorem Taken.le {sum : UInt8} {N : Nat} {passed : List Buf} (ht : Taken sum passed) (h : Sequence sum N passed) : N ≤ 20 := by
  by_contra hN
  have step : ∀ n, n < N → n ≤ 20 → Taken sum (passed.drop n) := by
    intro n
    induction n with
    | zero =>
      intro _ _
      rwa [List.drop_zero]
    | succ n ih =>
      intro hn h20
      obtain ⟨e, he, hp⟩ := h n (by omega)
      obtain ⟨hlt, rfl⟩ := List.getElem?_eq_some_iff.mp he
      obtain ⟨h1, -, h3⟩ := hp.first (by omega)
      have hprev := ih (by omega) (by omega)
      rw [List.drop_eq_getElem_cons hlt, Taken, if_neg h1, if_neg fun hc => absurd (h3.mp hc) (by omega)] at hprev
      exact hprev.2.2
  obtain ⟨e, he, hp⟩ := h 20 (by omega)
  obtain ⟨hlt, rfl⟩ := List.getElem?_eq_some_iff.mp he
  obtain ⟨h1, h2, -⟩ := hp.first (by omega)
  have hlast := step 20 (by omega) (by omega)
  rw [List.drop_eq_getElem_cons hlt, Taken, if_neg h1] at hlast
  apply hlast.2.1
  rw [h2]
  decide

/-! ## Rows joined -/

theorem flatMap_range_le {α : Type} (rows : Nat → List α) {a b : Nat} (h : a ≤ b) : ∃ rest,
    (List.range b).flatMap rows = (List.range a).flatMap rows ++ rest ∧ (rest = [] ↔ ∀ i, a ≤ i → i < b → rows i = []) := by
  obtain ⟨m, rfl⟩ := Nat.exists_eq_add_of_le h
  refine ⟨(List.range m).flatMap fun i => rows (a + i), ?_, ?_⟩
  · rw [List.range_add, List.flatMap_append, List.flatMap_map]
  · rw [List.flatMap_eq_nil_iff]
    constructor
    · intro hnil i h1 h2
      have hi := hnil (i - a) (List.mem_range.mpr (by omega))
      rwa [Nat.add_sub_cancel' h1] at hi
    · intro hnil i hi
      have := List.mem_range.mp hi
      exact hnil (a + i) (by omega) (by omega)

/-- When the first `c` rows, cut to `k`, are the first `N`. -/
theorem take_rows_iff {α : Type} (rows : Nat → List α) (c N k : Nat) :
    ((List.range c).flatMap rows).take k = (List.range N).flatMap rows ↔
      ((List.range N).flatMap rows).length ≤ k ∧
      (∀ i, N ≤ i → i < c → rows i = [] ∨ ((List.range N).flatMap rows).length = k) ∧
      ∀ i, c ≤ i → i < N → rows i = [] := by
  rcases Nat.le_total N c with hle | hle
  · obtain ⟨rest, e, hnil⟩ := flatMap_range_le rows hle
    generalize (List.range N).flatMap rows = text at *
    rw [e]
    constructor
    · intro h
      have hlen := congrArg List.length h
      rw [List.length_take, List.length_append] at hlen
      refine ⟨by omega, fun i h1 h2 => ?_, fun i h1 h2 => by omega⟩
      by_cases hk : text.length = k
      · exact Or.inr hk
      · exact Or.inl (hnil.mp (List.length_eq_zero_iff.mp (by omega)) i h1 h2)
    · rintro ⟨hlen, hrest, -⟩
      rw [List.take_append, List.take_of_length_le hlen]
      by_cases hk : text.length = k
      · rw [hk, Nat.sub_self, List.take_zero, List.append_nil]
      · rw [hnil.mpr fun i h1 h2 => (hrest i h1 h2).resolve_right hk, List.take_nil, List.append_nil]
  · obtain ⟨rest, e, hnil⟩ := flatMap_range_le rows hle
    rw [e]
    generalize (List.range c).flatMap rows = text at *
    constructor
    · intro h
      have hlen := congrArg List.length h
      rw [List.length_take, List.length_append] at hlen
      rw [List.length_append]
      refine ⟨by omega, fun i h1 h2 => by omega, ?_⟩
      exact hnil.mp (List.length_eq_zero_iff.mp (by omega))
    · rintro ⟨hlen, -, hrest⟩
      rw [hnil.mpr hrest, List.append_nil] at hlen ⊢
      exact List.take_of_length_le hlen

theorem Sequence.le_length {sum : UInt8} {N : Nat} {passed : List Buf} (h : Sequence sum N passed) : N ≤ passed.length := by
  rcases Nat.eq_zero_or_pos N with rfl | hpos
  · exact Nat.zero_le _
  · obtain ⟨e, he, -⟩ := h (N - 1) (by omega)
    have hlt := (List.getElem?_eq_some_iff.mp he).1
    omega

/-- What is joined is the text of a name that lies directly before, exactly if that is alone. -/
theorem joined_eq_iff {sum : UInt8} {N : Nat} {passed : List Buf} (h : Sequence sum N passed) (hpos : 0 < N) (h0 : sum ≠ 0)
    (ht : Taken sum passed) (l : LfnLocals) :
    (gathered l passed).joined = (passed.take N).flatMap lfnText ↔ Alone l passed N := by
  let older := gathered l (passed.drop N)
  let g := older.whole sum N passed
  have hg : gathered l passed = g := gathered_sequence h (ht.le h) hpos h0 l
  have hrow : ∀ i < N, g.rows i = (passed.map lfnText).getD i [] := fun i hi => if_pos hi
  have hrest : ∀ i, N ≤ i → g.rows i = older.rows i := fun i hi => if_neg (by omega)
  have htext : (List.range N).flatMap g.rows = (passed.take N).flatMap lfnText := by
    rw [List.flatMap_congr fun i hi => hrow i (List.mem_range.mp hi),
      flatMap_rows _ N (by rw [List.length_map]; exact h.le_length), ← List.map_take, List.flatMap_def]
  rw [hg, Gathered.joined, ← htext, take_rows_iff, htext]
  constructor
  · rintro ⟨hroom, hbehind, hcounted⟩
    refine ⟨hroom, fun i h1 h2 => ?_, fun i h1 h2 => ?_⟩
    · rw [← hrest i h1]
      exact hbehind i h1 h2
    · rw [← hrow i h2]
      exact hcounted i h1 h2
  · rintro ⟨hroom, hbehind, hcounted⟩
    refine ⟨hroom, fun i h1 h2 => ?_, fun i h1 h2 => ?_⟩
    · rw [hrest i h1]
      exact hbehind i h1 h2
    · rw [hrow i h2]
      exact hcounted i h1 h2

/-- The name that one call reports. -/
theorem nameOf_own_iff (l : LfnLocals) (passed : List Buf) (r : Buf) :
    OwnName passed r ((gathered l passed).nameOf r) ↔ Unmixed l passed r := by
  by_cases ht : fatSfnChecksum r ≠ 0 ∧ Taken (fatSfnChecksum r) passed
  · obtain ⟨h0, ht⟩ := ht
    have hsum := (gathered_sum h0 l passed).mpr ht
    have hname : (gathered l passed).nameOf r = (gathered l passed).joined := if_pos ⟨by rw [hsum]; exact h0, hsum.symm⟩
    have halone : ∀ N, 0 < N → Sequence (fatSfnChecksum r) N passed →
        ((gathered l passed).joined = (passed.take N).flatMap lfnText ↔ Alone l passed N) :=
      fun N hpos hs => joined_eq_iff hs hpos h0 ht l
    rw [hname]
    constructor
    · rintro (h | ⟨N, hpos, hs, h⟩) - -
      · exact Or.inl h
      · exact Or.inr ⟨N, hpos, hs, (halone N hpos hs).mp h⟩
    · intro h
      rcases h h0 ht with h | ⟨N, hpos, hs, h⟩
      · exact Or.inl h
      · exact Or.inr ⟨N, hpos, hs, (halone N hpos hs).mpr h⟩
  · have hname : (gathered l passed).nameOf r = shortName r := by
      apply if_neg
      rintro ⟨hne, hsum⟩
      have h0 : fatSfnChecksum r ≠ 0 := by rw [hsum]; exact hne
      exact ht ⟨h0, (gathered_sum h0 l passed).mp hsum.symm⟩
    exact iff_of_true (Or.inl hname) fun h0 h => absurd ⟨h0, h⟩ ht

/-! ## The directory -/

/-- Every reported name is that of its own entry. -/
def NamesOwn (ps : List (List Buf × Buf)) (infos : List FileInfo) : Prop :=
  List.Forall₂ (fun p info => Decodes info p.2 ∧ OwnName p.1 p.2 info.name) ps infos

/-- A listing of the directory mixes up no names. -/
def NeverMixed (env : Env) (w : World) (c : UInt32) (cs : List UInt32) : Prop :=
  Lists env w c cs (NamesOwn (reports [] (records env w.vol cs)))

theorem namesOwn_iff (env : Env) (ps : List (List Buf × Buf)) : ∀ {k : Nat} {infos : List FileInfo},
    infos.map FileInfo.name = ps.mapIdx (fun i p => (gathered (env.stack (k + i)) p.1).nameOf p.2) →
    List.Forall₂ Decodes infos (ps.map Prod.snd) →
    (NamesOwn ps infos ↔ ∀ i p, ps[i]? = some p → Unmixed (env.stack (k + i)) p.1 p.2) := by
  induction ps with
  | nil =>
    intro k infos hnames _
    obtain rfl : infos = [] := List.map_eq_nil_iff.mp hnames
    exact iff_of_true .nil fun i p h => by cases h
  | cons p ps ih =>
    intro k infos hnames hdec
    cases infos with
    | nil => cases hdec
    | cons info infos =>
      rw [List.map_cons, List.forall₂_cons] at hdec
      rw [List.map_cons, List.mapIdx_cons, List.cons.injEq] at hnames
      have hrest : infos.map FileInfo.name = ps.mapIdx fun i p => (gathered (env.stack (k + 1 + i)) p.1).nameOf p.2 := by
        rw [hnames.2]
        simp only [Nat.add_assoc, Nat.add_comm 1]
      rw [NamesOwn, List.forall₂_cons, ← NamesOwn, ih hrest hdec.2, hnames.1, nameOf_own_iff]
      constructor
      · rintro ⟨⟨-, hp⟩, hall⟩ i q hq
        cases i with
        | zero =>
          cases hq
          exact hp
        | succ i =>
          rw [← Nat.add_assoc, Nat.add_right_comm]
          exact hall i q hq
      · intro hall
        refine ⟨⟨hdec.1, hall 0 p rfl⟩, fun i q hq => ?_⟩
        rw [Nat.add_right_comm, Nat.add_assoc]
        exact hall (i + 1) q hq

/-- Whatever a directory holds, a listing gives each entry a name of its own exactly if each of
    them is unmixed. -/
theorem names_own_iff {env : Env} {w : World} {cs : List UInt32} {c : UInt32} (hv : w.vol.WellFormed)
    (ha : ∀ k, env.fails k = false) (hch : Chain env w.vol cs) (hc : cs[0]? = some c) (hz : ∀ k, (env.stack k).Zeroed) :
    NeverMixed env w c cs ↔
      ∀ i p, (reports [] (records env w.vol cs))[i]? = some p → Unmixed (env.stack (w.frames + i)) p.1 p.2 :=
  lists_iff hv ha hch hc hz fun _ hnames hdec => namesOwn_iff env _ hnames hdec

/-! ## A name of two entries

`a tale of two cities`; the checksum in the entry with its start is off by `shift`. -/

def ataleo : List UInt8 := [0x41, 0x54, 0x41, 0x4C, 0x45, 0x4F, 0x7E, 0x31, 0x20, 0x20, 0x20]

def ataleoChecksum : UInt8 := fatSfnChecksum fun i => ataleo.getD i 0

def talePart1 (shift : UInt8) : List UInt8 :=
  [0x01, 0x61, 0, 0x20, 0, 0x74, 0, 0x61, 0, 0x6C, 0, 0x0F, 0, ataleoChecksum + shift,
    0x65, 0, 0x20, 0, 0x6F, 0, 0x66, 0, 0x20, 0, 0x74, 0, 0, 0, 0x77, 0, 0x6F, 0]

def talePart2 : List UInt8 :=
  [0x42, 0x20, 0, 0x63, 0, 0x69, 0, 0x74, 0, 0x69, 0, 0x0F, 0, ataleoChecksum,
    0x65, 0, 0x73, 0, 0, 0, 0xFF, 0xFF, 0xFF, 0xFF, 0xFF, 0xFF, 0, 0, 0xFF, 0xFF, 0xFF, 0xFF]

def taleEntries (shift : UInt8) : List UInt8 :=
  talePart2 ++ talePart1 shift ++ ataleo ++ [0x20, 0, 0, 0, 0, 0, 0, 0, 0, 0, 0, 0, 0, 0, 0, 3, 0, 0x58, 2]

def taleDisk (shift : UInt8) : Env := rootDisk (taleEntries shift)

def taleWorld (shift : UInt8) : World := rootWorld (taleEntries shift)

theorem taleDisk_reports {shift : UInt8} (hs : shift = 0 ∨ shift = 1) :
    let r := record (taleDisk shift) sampleVolume [2]
    reports [] (records (taleDisk shift) sampleVolume [2]) = [([r 1, r 0], r 2)] := by
  let r := record (taleDisk shift) sampleVolume [2]
  have hkinds : r 0 0 ≠ 0 ∧ ¬ Reported (r 0) ∧ r 1 0 ≠ 0 ∧ ¬ Reported (r 1) ∧ Reported (r 2) ∧ r 3 0 = 0 := by
    rcases hs with rfl | rfl <;> decide +kernel
  obtain ⟨h0, hr0, h1, hr1, hr2, h3⟩ := hkinds
  have hpos : 0 < recordCount sampleVolume [2] := by decide
  have hrecords := records_drop (taleDisk shift) hpos
  rw [List.drop_zero, records_drop (taleDisk shift) (n := 0 + 1) (by decide),
    records_drop (taleDisk shift) (n := 0 + 1 + 1) (by decide),
    records_drop (taleDisk shift) (n := 0 + 1 + 1 + 1) (by decide)] at hrecords
  rw [hrecords, reports_skipped h0 hr0, reports_skipped h1 hr1, reports_reported hr2, reports_end h3]

theorem names_own_tale : NeverMixed (taleDisk 0) (taleWorld 0) 2 [2] := by
  have hvol : (taleWorld 0).vol = sampleVolume := rootWorld_vol _
  have hreports := @taleDisk_reports 0 (Or.inl rfl)
  apply (names_own_iff (by rw [hvol]; exact sampleVolume_wellFormed) (fun _ => rfl) (by rw [hvol]; exact rootDisk_chain _) rfl
    fun _ => ⟨rfl, fun _ _ => rfl⟩).mpr
  rw [hvol, hreports]
  intro i p hp
  let r := record (taleDisk 0) sampleVolume [2]
  obtain rfl : ([r 1, r 0], r 2) = p := by
    cases i with
    | zero => exact Option.some.inj hp
    | succ i => cases hp
  have h1 : r 1 11 &&& 0x0F = 0x0F ∧ r 1 13 = fatSfnChecksum (r 2) ∧ (r 1 0).toNat = 1 := by decide +kernel
  have h0 : r 0 11 &&& 0x0F = 0x0F ∧ r 0 13 = fatSfnChecksum (r 2) ∧ (r 0 0).toNat = 2 ||| 0x40 := by decide +kernel
  have hlen : (([r 1, r 0].take 2).flatMap lfnText).length ≤ 255 := by decide +kernel
  refine fun _ _ => Or.inr ⟨2, by decide, fun n hn => ?_, hlen, fun i h2 hi => ?_, fun i hi h2 => ?_⟩
  · rcases n with _ | _ | n
    · exact ⟨r 1, rfl, h1.1, h1.2.1, h1.2.2⟩
    · exact ⟨r 0, rfl, h0.1, h0.2.1, h0.2.2⟩
    · omega
  · have hi' : i < 2 := hi
    omega
  · have hi' : 2 ≤ i := hi
    omega

/-- With the other checksum in the entry that is not compared the name is reported all the same. -/
theorem name_mixed : ¬ NeverMixed (taleDisk 1) (taleWorld 1) 2 [2] := by
  have hvol : (taleWorld 1).vol = sampleVolume := rootWorld_vol _
  have hreports := @taleDisk_reports 1 (Or.inr rfl)
  intro hnever
  let r := record (taleDisk 1) sampleVolume [2]
  have hnames := (lists_iff (by rw [hvol]; exact sampleVolume_wellFormed) (fun _ => rfl) (by rw [hvol]; exact rootDisk_chain _) rfl
    (fun _ => ⟨rfl, fun _ _ => rfl⟩) fun _ hnames hdec => namesOwn_iff _ _ hnames hdec).mp hnever
  rw [hvol, hreports] at hnames
  have h0 : fatSfnChecksum (r 2) ≠ 0 := by decide +kernel
  have ht : Taken (fatSfnChecksum (r 2)) [r 1, r 0] := by decide +kernel
  have hne : r 1 13 ≠ fatSfnChecksum (r 2) := by decide +kernel
  rcases hnames 0 ([r 1, r 0], r 2) rfl h0 ht with h | ⟨N, hpos, hs, -⟩
  · have hjoin : (gathered ⟨fun _ => 0, 0⟩ [r 1, r 0]).joined ≠ shortName (r 2) := by decide +kernel
    exact hjoin h
  · obtain ⟨e, he, hp⟩ := hs 0 hpos
    cases he
    exact hne hp.checksum

end OpenGpos.Fat
