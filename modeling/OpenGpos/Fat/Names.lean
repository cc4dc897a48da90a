/-
  OpenGpos.Fat.Names — the names that a listing reports. `reports` cuts a directory into the
  entries that are reported, each with the records passed over before it; the name of each is
  what those records leave behind (`gathered`, `directory_names`).
-/
import OpenGpos.Fat.Listing
import OpenGpos.Fat.LongName
import OpenGpos.Fat.Frame

namespace OpenGpos.Fat

/-- The reported records up to the end mark, each with the records passed over since the one
    before it, the nearest first. -/
def reports : List Buf → List Buf → List (List Buf × Buf)
  | _, [] => []
  | passed, r :: rs =>
    if r 0 = 0 then []
    else if Reported r then (passed, r) :: reports [] rs
    else reports (r :: passed) rs

/-- What a call that passed over these records has gathered. -/
def gathered (l : LfnLocals) : List Buf → Gathered
  | [] => .start l
  | e :: passed => (gathered l passed).look e

theorem reports_end {r : Buf} (h : r 0 = 0) (passed rs : List Buf) : reports passed (r :: rs) = [] := if_pos h

theorem reports_reported {r : Buf} (h : Reported r) (passed rs : List Buf) :
    reports passed (r :: rs) = (passed, r) :: reports [] rs := by
  rw [reports, if_neg h.1, if_pos h]

theorem reports_skipped {r : Buf} (h0 : r 0 ≠ 0) (h : ¬ Reported r) (passed rs : List Buf) :
    reports passed (r :: rs) = reports (r :: passed) rs := by
  rw [reports, if_neg h0, if_neg h]

/-- They are the entries of the directory. -/
theorem reports_entries (rs : List Buf) : ∀ passed, (reports passed rs).map Prod.snd = entriesIn rs := by
  induction rs with
  | nil => exact fun _ => rfl
  | cons r rs ih =>
    intro passed
    by_cases h0 : r 0 = 0
    · rw [reports_end h0, (entriesIn_end h0 rs).1]
      rfl
    by_cases hr : Reported r
    · rw [reports_reported hr, (entriesIn_reported hr rs).1, List.map_cons, ih]
    · rw [reports_skipped h0 hr, (entriesIn_skipped h0 hr rs).1]
      exact ih _

/-! ## One call -/

/-- How a call ends that has passed over `passed` and stands before record `n`: nothing is
    left to report, or it reports the next one under the name that was gathered. -/
def CallNames (env : Env) (v : VolumeInfo) (cs : List UInt32) (l : LfnLocals) (n : Nat) (passed : List Buf) (res : FatError)
    (iter : DirIter) (info : FileInfo) : Prop :=
  let rest := (records env v cs).drop n
  (reports passed rest = [] ∧ res ≠ .success) ∨
  (res = .success ∧ ∃ passed' r n', reports passed rest = (passed', r) :: reports [] ((records env v cs).drop n') ∧
    info.name = (gathered l passed').nameOf r ∧ Before env v cs n' iter ∧ iter.lfnChecksum = 0)

section
variable {env : Env} {v : VolumeInfo} {cs : List UInt32} (hv : v.WellFormed) (ha : ∀ k, env.fails k = false)
  (hch : Chain env v cs)
include hv ha hch

theorem readDirLoop_names (l₀ : LfnLocals) (fuel : Nat) : ∀ {n : Nat} {iter iter' : DirIter} {l : LfnLocals} {passed : List Buf}
    {info info' : FileInfo} {w w' : World} {res : FatError}, w.vol = v → Before env v cs n iter →
    (gathered l₀ passed).HeldBy iter.lfnChecksum l → readDirLoop env fuel iter l info w = .ok ((res, iter', info'), w') →
    w'.vol = v ∧ w'.frames = w.frames ∧ CallNames env v cs l₀ n passed res iter' info' := by
  induction fuel with
  | zero => intro n iter iter' l passed info info' w w' res _ _ _ h; cases h
  | succ fuel ih =>
    intro n iter iter' l passed info info' w w' res hw hb hg h
    subst hw
    simp only [readDirLoop, bind_apply] at h
    rcases dirTurn_before hv ha hch hb l info with ⟨hn, e, iter1, w1, he, hb1, hvol, hsum, ht⟩ | ⟨hn, iter1, w1, hvol, ht⟩
    · have hframes := dirTurn_frames env ht
      rw [ht, ok_bind] at h
      dsimp only [CallNames]
      rw [records_drop env hn]
      by_cases h0 : record env w.vol cs n 0 = 0
      · rw [entryTurn_ends he iter1 l info h0] at h
        cases h
        exact ⟨hvol, hframes, Or.inl ⟨reports_end h0 _ _, by decide⟩⟩
      by_cases hr : Reported (record env w.vol cs n)
      · rw [entryTurn_reports he iter1 l info hr] at h
        cases h
        rw [← hsum] at hg
        exact ⟨hvol, hframes, Or.inr ⟨rfl, passed, _, n + 1, reports_reported hr _ _, sfnEntry_name he hg info,
          hb1.checksum 0, rfl⟩⟩
      · rw [← hsum] at hg
        obtain ⟨k, l', info1, et, hg'⟩ := entryTurn_gathers he h0 hr hg info
        rw [et] at h
        have hheld : (gathered l₀ (record env w.vol cs n :: passed)).HeldBy k l' := hg'
        obtain ⟨h1, h2, h3⟩ := ih hvol (hb1.checksum k) hheld h
        rw [reports_skipped h0 hr]
        exact ⟨h1, h2.trans hframes, h3⟩
    · have hframes := dirTurn_frames env ht
      rw [ht, ok_bind] at h
      cases h
      have hnil : reports passed ((records env w.vol cs).drop n) = [] := by rw [records_end env hn]; rfl
      exact ⟨hvol, hframes, Or.inl ⟨hnil, by decide⟩⟩

theorem fatReadNextDirEntry_names {fuel n : Nat} {iter iter' : DirIter} {info info' : FileInfo} {w w' : World} {res : FatError}
    (hw : w.vol = v) (hb : Before env v cs n iter) (hk : iter.lfnChecksum = 0) (hz : (env.stack w.frames).Zeroed)
    (h : fatReadNextDirEntry env fuel iter info w = .ok ((res, iter', info'), w')) :
    w'.vol = v ∧ w'.frames = w.frames + 1 ∧ CallNames env v cs (env.stack w.frames) n [] res iter' info' := by
  have hi : w.vol.isInitialized = true := by rw [hw]; exact hv.initialized
  simp only [fatReadNextDirEntry, bind_apply, get_apply, ok_bind, hi, Bool.not_true, Bool.false_eq_true, if_false,
    modify_apply] at h
  have hg : (gathered (env.stack w.frames) []).HeldBy iter.lfnChecksum (env.stack w.frames) := by
    rw [hk]
    exact hz.heldBy
  exact readDirLoop_names hv ha hch (env.stack w.frames) fuel (w := { w with frames := w.frames + 1 }) hw hb hg h

/-! ## The listing -/

theorem listFrom_names (hz : ∀ k, (env.stack k).Zeroed) (fuel calls : Nat) : ∀ {n : Nat} {iter : DirIter} {info : FileInfo}
    {w w' : World} {infos : List FileInfo} {res : FatError}, w.vol = v → Before env v cs n iter → iter.lfnChecksum = 0 →
    listFrom env fuel calls iter info w = .ok ((infos, res), w') →
    infos.map FileInfo.name = (reports [] ((records env v cs).drop n)).mapIdx fun i p =>
      (gathered (env.stack (w.frames + i)) p.1).nameOf p.2 := by
  induction calls with
  | zero => intro n iter info w w' infos res _ _ _ h; cases h
  | succ calls ih =>
    intro n iter info w w' infos res hw hb hk h
    simp only [listFrom, bind_apply] at h
    cases hc : fatReadNextDirEntry env fuel iter info w with
    | error e => rw [hc] at h; cases h
    | ok r =>
      obtain ⟨⟨res1, iter1, info1⟩, w1⟩ := r
      obtain ⟨hvol, hframes, hends⟩ := fatReadNextDirEntry_names hv ha hch hw hb hk (hz _) hc
      rw [hc, ok_bind] at h
      rcases hends with ⟨hnil, hres⟩ | ⟨hs, passed', r, n', hcons, hname, hb', hk'⟩
      · rw [if_neg hres] at h
        cases h
        rw [hnil]
        rfl
      · rw [if_pos hs, bind_apply] at h
        cases hl : listFrom env fuel calls iter1 info1 w1 with
        | error e => rw [hl] at h; cases h
        | ok t =>
          obtain ⟨⟨infos1, last⟩, w2⟩ := t
          rw [hl] at h
          cases h
          have hrest := ih hvol hb' hk' hl
          rw [hcons, List.map_cons, List.mapIdx_cons, hname, hrest, hframes]
          simp only [Nat.add_zero, Nat.add_assoc, Nat.add_comm 1]

end

/-- The names that a listing of a directory reports. -/
theorem directory_names {env : Env} {w w' : World} {cs : List UInt32} {c : UInt32} (hv : w.vol.WellFormed)
    (ha : ∀ k, env.fails k = false) (hch : Chain env w.vol cs) (hc : cs[0]? = some c) (hz : ∀ k, (env.stack k).Zeroed)
    {fuel n : Nat} {iter : DirIter} {info : FileInfo} {infos : List FileInfo} {res : FatError}
    (h : listDirectory env fuel n c iter info w = .ok ((infos, res), w')) :
    infos.map FileInfo.name = (reports [] (records env w.vol cs)).mapIdx fun i p =>
      (gathered (env.stack (w.frames + i)) p.1).nameOf p.2 := by
  have e := fatInitRootDirIterator_apply hv.initialized iter c
  simp only [listDirectory, bind_apply, e, ok_bind, ne_eq, not_true_eq_false, if_false] at h
  have hnames := listFrom_names hv ha hch hz fuel n rfl (.fresh (freshIter_fresh c) hc) rfl h
  rwa [List.drop_zero] at hnames

/-- A listing of the directory on the chain `cs` hands out records of which `P` holds. -/
def Lists (env : Env) (w : World) (c : UInt32) (cs : List UInt32) (P : List FileInfo → Prop) : Prop :=
  ∀ iter info, ∃ N, ∀ fuel n, N ≤ fuel → N ≤ n → ∃ infos w', P infos ∧
    listDirectory env fuel n c iter info w = .ok ((infos, endOf (records env w.vol cs)), w')

/-- What holds of the records of a listing is what holds of the entries under the names that
    were gathered. -/
theorem lists_iff {env : Env} {w : World} {cs : List UInt32} {c : UInt32} (hv : w.vol.WellFormed)
    (ha : ∀ k, env.fails k = false) (hch : Chain env w.vol cs) (hc : cs[0]? = some c) (hz : ∀ k, (env.stack k).Zeroed)
    {P : List FileInfo → Prop} {cond : Prop}
    (h : ∀ infos : List FileInfo, (infos.map FileInfo.name = (reports [] (records env w.vol cs)).mapIdx fun i p =>
        (gathered (env.stack (w.frames + i)) p.1).nameOf p.2) →
      List.Forall₂ Decodes infos ((reports [] (records env w.vol cs)).map Prod.snd) → (P infos ↔ cond)) :
    Lists env w c cs P ↔ cond := by
  have listed : ∀ {fuel n iter info infos res w'}, List.Forall₂ Decodes infos (entriesIn (records env w.vol cs)) →
      listDirectory env fuel n c iter info w = .ok ((infos, res), w') → (P infos ↔ cond) := by
    intro fuel n iter info infos res w' hdec hl
    rw [← reports_entries _ []] at hdec
    exact h infos (directory_names hv ha hch hc hz hl) hdec
  constructor
  · intro hP
    obtain ⟨N1, h1⟩ := hP default default
    obtain ⟨N2, h2⟩ := directory_listing hv ha hch hc default default
    obtain ⟨infos, w', hp, e1⟩ := h1 (max N1 N2) (max N1 N2) (by omega) (by omega)
    obtain ⟨infos2, w2, hdec, e2⟩ := h2 (max N1 N2) (max N1 N2) (by omega) (by omega)
    rw [e1] at e2
    cases e2
    exact (listed hdec e1).mp hp
  · intro hcond iter info
    obtain ⟨N, hN⟩ := directory_listing hv ha hch hc iter info
    refine ⟨N, fun fuel n hf hn => ?_⟩
    obtain ⟨infos, w', hdec, e⟩ := hN fuel n hf hn
    exact ⟨infos, w', (listed hdec e).mpr hcond, e⟩

/-! ## The entries of one name -/

/-- Entry `n + 1` of a name of `N` entries. -/
structure IsPart (sum : UInt8) (N n : Nat) (e : Buf) : Prop where
  attributes : e 11 &&& 0x0F = 0x0F
  checksum : e 13 = sum
  order : (e 0).toNat = if n + 1 = N then N ||| 0x40 else n + 1

/-- The records passed over last are the entries of one name, number 1 the nearest. -/
def Sequence (sum : UInt8) (N : Nat) (passed : List Buf) : Prop := ∀ n < N, ∃ e, passed[n]? = some e ∧ IsPart sum N n e

/-- What a name that is stored whole adds. -/
def Gathered.whole (g : Gathered) (sum : UInt8) (N : Nat) (passed : List Buf) : Gathered where
  sum := sum
  count := g.count + UInt8.ofNat N
  rows i := if i < N then (passed.map lfnText).getD i [] else g.rows i

theorem order_last : ∀ N < 22, UInt8.ofNat (N ||| 0x40) ≠ 0xE5 ∧ UInt8.ofNat (N ||| 0x40) &&& 0xBF = UInt8.ofNat N ∧
    UInt8.ofNat (N ||| 0x40) &&& 0x40 ≠ 0 := by decide

theorem order_other : ∀ n < 22, UInt8.ofNat n ≠ 0xE5 ∧ UInt8.ofNat n &&& 0xBF = UInt8.ofNat n ∧
    UInt8.ofNat n &&& 0x40 = 0 := by decide

/-- What the first byte of an entry says. -/
theorem IsPart.first {sum : UInt8} {N n : Nat} {e : Buf} (h : IsPart sum N n e) (hn : n ≤ 20) :
    e 0 ≠ 0xE5 ∧ lfnOrder e = UInt8.ofNat (n + 1) ∧ (StartsName e ↔ n + 1 = N) := by
  have he : e 0 = UInt8.ofNat (if n + 1 = N then N ||| 0x40 else n + 1) := by
    rw [← h.order, UInt8.ofNat_toNat]
  unfold lfnOrder StartsName
  rw [he]
  by_cases hl : n + 1 = N
  · obtain ⟨h1, h2, h3⟩ := order_last N (by omega)
    rw [if_pos hl, hl]
    exact ⟨h1, h2, iff_of_true h3 rfl⟩
  · obtain ⟨h1, h2, h3⟩ := order_other (n + 1) (by omega)
    rw [if_neg hl]
    exact ⟨h1, h2, iff_of_false (fun h => h h3) hl⟩

/-- An entry of a name that goes on, or starts, with the checksum of the name. -/
theorem look_part {sum : UInt8} {N n : Nat} {e : Buf} {g : Gathered} (h : IsPart sum N n e) (hn : n < N) (hN : N ≤ 20)
    (hg : n + 1 = N ∨ g.sum = sum) (h0 : sum ≠ 0) :
    g.look e = ⟨sum, g.count + 1, fun i => if i = n then lfnText e else g.rows i⟩ := by
  obtain ⟨h1, h2, h3⟩ := h.first (by omega)
  have hord : (lfnOrder e).toNat = n + 1 := by
    rw [h2, UInt8.toNat_ofNat']
    omega
  have hrow : HasRow e := by
    unfold HasRow
    rw [← UInt8.toNat_inj, UInt8.lt_iff_toNat_lt, hord]
    show ¬ (n + 1 = 0 ∨ 20 < n + 1)
    omega
  have hs : StartsName e ∨ g.sum ≠ 0 := by
    rcases hg with hg | hg
    · exact Or.inl (h3.mpr hg)
    · exact Or.inr (hg ▸ h0)
  have hsum : (if StartsName e then e 13 else g.sum) = sum := by
    by_cases hl : StartsName e
    · rw [if_pos hl, h.checksum]
    · rw [if_neg hl]
      exact hg.resolve_left fun hc => hl (h3.mpr hc)
  rw [Gathered.look, if_neg h1, if_pos h.attributes, if_pos ⟨hrow, hs⟩, Gathered.add, hsum, lfnRow, hord]
  rfl

/-- The entries of a name are gathered one after the other, the last one first. -/
theorem gathered_sequence {sum : UInt8} {N : Nat} {passed : List Buf} (h : Sequence sum N passed) (hN : N ≤ 20)
    (hpos : 0 < N) (h0 : sum ≠ 0) (l : LfnLocals) :
    gathered l passed = (gathered l (passed.drop N)).whole sum N passed := by
  let older := gathered l (passed.drop N)
  have hcons : ∀ n < N, ∃ e, IsPart sum N n e ∧ (passed.map lfnText).getD n [] = lfnText e ∧
      passed.drop n = e :: passed.drop (n + 1) := by
    intro n hn
    obtain ⟨e, he, hp⟩ := h n hn
    obtain ⟨hlt, rfl⟩ := List.getElem?_eq_some_iff.mp he
    refine ⟨_, hp, ?_, List.drop_eq_getElem_cons hlt⟩
    rw [List.getD_eq_getElem?_getD, List.getElem?_map, he]
    rfl
  -- by induction on how many of them were passed over
  have hsteps : ∀ m, m < N → gathered l (passed.drop (N - (m + 1))) = ⟨sum, older.count + UInt8.ofNat (m + 1),
      fun i => if N - (m + 1) ≤ i ∧ i < N then (passed.map lfnText).getD i [] else older.rows i⟩ := by
    intro m hm
    induction m with
    | zero =>
      obtain ⟨e, hp, htext, hdrop⟩ := hcons (N - (0 + 1)) (by omega)
      rw [hdrop, gathered, show N - (0 + 1) + 1 = N by omega, look_part hp (by omega) hN (Or.inl (by omega)) h0]
      congr 1
      funext i
      by_cases hi : i = N - (0 + 1)
      · rw [if_pos hi, if_pos (by omega), hi, htext]
      · rw [if_neg hi, if_neg (by omega)]
    | succ m ih =>
      obtain ⟨e, hp, htext, hdrop⟩ := hcons (N - (m + 1 + 1)) (by omega)
      rw [hdrop, gathered, show N - (m + 1 + 1) + 1 = N - (m + 1) by omega, ih (by omega), look_part hp (by omega) hN (Or.inr rfl) h0]
      congr 1
      · rw [UInt8.add_assoc, UInt8.ofNat_add (m + 1) 1]
        rfl
      · funext i
        by_cases hi : i = N - (m + 1 + 1)
        · rw [if_pos hi, if_pos (by omega), hi, htext]
        · rw [if_neg hi]
          exact if_congr (by omega) rfl rfl
  have hlast := hsteps (N - 1) (by omega)
  rw [show N - (N - 1 + 1) = 0 by omega, show N - 1 + 1 = N by omega, List.drop_zero] at hlast
  rw [hlast]
  simp only [Nat.zero_le, true_and]
  rfl

/-- The rows of a name that is stored whole, joined. -/
theorem flatMap_rows (texts : List (List UInt8)) : ∀ N, N ≤ texts.length →
    (List.range N).flatMap (fun i => texts.getD i []) = (texts.take N).flatten := by
  intro N
  induction N with
  | zero => exact fun _ => rfl
  | succ N ih =>
    intro hlt
    rw [List.range_succ, List.flatMap_append, List.flatMap_singleton, ih (by omega), List.take_add_one, List.flatten_append,
      List.getElem?_eq_getElem hlt, List.getD_eq_getElem?_getD, List.getElem?_eq_getElem hlt]
    simp

end OpenGpos.Fat
