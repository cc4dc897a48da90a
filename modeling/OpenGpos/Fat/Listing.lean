/-
  OpenGpos.Fat.Listing — a directory is a file of 32-byte records, and the iterator walks
  them in order. `Before n` says that the iterator has `n` records of the chain behind it;
  a turn of the loop looks at record `n` (`dirTurn_before`), a call goes on to the next
  record it reports (`readDirLoop_before`), and asking until the first refusal gives the
  reported records, each once (`directory_listing`).
-/
import Mathlib
import OpenGpos.Fat.Cursor
import OpenGpos.Fat.Handles

namespace OpenGpos.Fat

/-- Record `p` of the directory on the chain `cs`. -/
def record (env : Env) (v : VolumeInfo) (cs : List UInt32) (p : Nat) : Buf := fun i => chainByte env v cs (p * 32 + i)

def recordCount (v : VolumeInfo) (cs : List UInt32) : Nat := cs.length * v.bpc / 32

def records (env : Env) (v : VolumeInfo) (cs : List UInt32) : List Buf :=
  (List.range (recordCount v cs)).map (record env v cs)

/-- The records before the end mark that are reported. -/
def entriesIn (rs : List Buf) : List Buf := (rs.takeWhile fun r => r 0 ≠ 0).filter fun r => Reported r

/-- What the iterator answers behind the last of them. -/
def endOf (rs : List Buf) : FatError := if rs.any fun r => r 0 = 0 then .noMoreEntries else .endOfChain

theorem entriesIn_end {r : Buf} (h : r 0 = 0) (rs : List Buf) :
    entriesIn (r :: rs) = [] ∧ endOf (r :: rs) = .noMoreEntries := by
  simp [entriesIn, endOf, h]

theorem entriesIn_reported {r : Buf} (h : Reported r) (rs : List Buf) :
    entriesIn (r :: rs) = r :: entriesIn rs ∧ endOf (r :: rs) = endOf rs := by
  simp [entriesIn, endOf, h, h.1]

theorem entriesIn_skipped {r : Buf} (h0 : r 0 ≠ 0) (h : ¬ Reported r) (rs : List Buf) :
    entriesIn (r :: rs) = entriesIn rs ∧ endOf (r :: rs) = endOf rs := by
  simp [entriesIn, endOf, h, h0]

/-! ## The position of the iterator -/

/-- `P` is where the sector in the buffer starts in the directory. -/
inductive Before (env : Env) (v : VolumeInfo) (cs : List UInt32) : Nat → DirIter → Prop
  | fresh {c : UInt32} {iter : DirIter} : Fresh c iter → cs[0]? = some c → Before env v cs 0 iter
  | inside {P j : Nat} {c : UInt32} {iter : DirIter} : P % 512 = 0 → cs[P / v.bpc]? = some c →
      Inside env v c (P % v.bpc / 512) j iter → j ≤ 16 → Before env v cs (P / 32 + j) iter

section
variable {env : Env} {v : VolumeInfo} {cs : List UInt32}

theorem Before.checksum {n : Nat} {iter : DirIter} (h : Before env v cs n iter) (k : UInt8) :
    Before env v cs n { iter with lfnChecksum := k } := by
  cases h with
  | fresh hf hc => exact .fresh ⟨hf.cluster, hf.sector, hf.valid⟩ hc
  | inside hP hc hi hj => exact .inside hP hc ⟨hi.cluster, hi.sector, hi.entry, hi.valid, hi.buffer⟩ hj

/-- An entry of a sector is a record of the directory. -/
theorem agree_record (hb : 0 < v.bpc) {P j : Nat} {c : UInt32} (hr : v.InRange c) (hP : P % 512 = 0)
    (hc : cs[P / v.bpc]? = some c) (hj : j < 16) {e : Buf} (he : Agree e (dirEntry env v c (P % v.bpc / 512) j)) :
    Agree e (record env v cs (P / 32 + j)) := by
  intro i hi
  have hq : (P / 32 + j) * 32 + i = P + (j * 32 + i) := by omega
  have hs : (UInt32.ofNat (P % v.bpc / 512)).toNat = P % v.bpc / 512 := by
    have hle := v.bpc_le
    have hlt : P % v.bpc < v.bpc := Nat.mod_lt _ hb
    rw [UInt32.toNat_ofNat']; omega
  rw [he i hi, record, hq, chainByte_add hb hc (by omega), hP, Nat.zero_add, dirEntry, fatClusterToLba_add hr, hs]

theorem records_drop (env : Env) {n : Nat} (hn : n < recordCount v cs) :
    (records env v cs).drop n = record env v cs n :: (records env v cs).drop (n + 1) := by
  have hl : n < (records env v cs).length := by
    rw [records, List.length_map, List.length_range]; exact hn
  rw [List.drop_eq_getElem_cons hl]
  simp [records]

theorem records_end (env : Env) {n : Nat} (hn : n = recordCount v cs) : (records env v cs).drop n = [] := by
  apply List.drop_eq_nil_of_le
  rw [records, List.length_map, List.length_range]; omega

end

/-! ## Turns and calls -/

section
variable {env : Env} {w : World} {cs : List UInt32} (hv : w.vol.WellFormed) (ha : ∀ k, env.fails k = false)
  (hch : Chain env w.vol cs)
include hv ha hch

/-- A turn of an iterator that stands in its directory. -/
theorem dirTurn_before {n : Nat} {iter : DirIter} (h : Before env w.vol cs n iter) (l : LfnLocals) (info : FileInfo) :
    (n < recordCount w.vol cs ∧ ∃ e iter' w', Agree e (record env w.vol cs n) ∧ Before env w.vol cs (n + 1) iter' ∧
      w'.vol = w.vol ∧ iter'.lfnChecksum = iter.lfnChecksum ∧
        dirTurn env iter l info w = .ok (entryTurn e iter' l info, w')) ∨
    (n = recordCount w.vol cs ∧ StopsWith env iter l info w .endOfChain) := by
  have hb := hv.bpc_pos
  have hcount : ∀ P, P < cs.length * w.vol.bpc → P % 512 = 0 → P / 32 + 15 < recordCount w.vol cs := by
    intro P hP h512
    rw [mul_bpc] at hP
    rw [recordCount, mul_bpc]; omega
  have hlen : ∀ {P c}, cs[P / w.vol.bpc]? = some c → P < cs.length * w.vol.bpc := by
    intro P c hc
    exact (Nat.div_lt_iff_lt_mul hb).mp (List.getElem?_eq_some_iff.mp hc).1
  -- a turn that looks at the first entry of the sector at `P`
  have first : ∀ {P c}, P % 512 = 0 → cs[P / w.vol.bpc]? = some c → Takes env iter l info w c (P % w.vol.bpc / 512) 0 →
      P / 32 < recordCount w.vol cs ∧ ∃ e iter' w', Agree e (record env w.vol cs (P / 32)) ∧
        Before env w.vol cs (P / 32 + 1) iter' ∧ w'.vol = w.vol ∧ iter'.lfnChecksum = iter.lfnChecksum ∧
        dirTurn env iter l info w = .ok (entryTurn e iter' l info, w') := by
    rintro P c hP hc ⟨e, iter', w', he, hi, hvol, hk, ht⟩
    have hn := hcount P (hlen hc) hP
    have hrec := agree_record hb (hch.inRange hc) hP hc (by omega) he
    exact ⟨by omega, e, iter', w', hrec, .inside hP hc hi (by omega), hvol, hk, ht⟩
  cases h with
  | @fresh c _ hf hc =>
    left
    have hs : (iter.currentSectorInCluster + 1).toNat = 0 := by rw [hf.sector]; rfl
    have ht := dirTurn_sector l info env (Or.inl hf.valid) hf.cluster hs hv.sectors.spc_pos
    rw [ha, if_neg (by decide)] at ht
    exact first (P := 0) rfl (by simpa using hc) (by simpa using ht)
  | @inside P j c _ hP hc hi hj =>
    have hbps : w.vol.bytesPerSector.toNat = 512 := by rw [hv.sector]; rfl
    by_cases hj16 : j < 16
    · left
      obtain ⟨e, iter', w', he, hi', hvol, hk, ht⟩ := dirTurn_here l info hi (by omega) hj16
      have hn := hcount P (hlen hc) hP
      have hrec := agree_record hb (hch.inRange hc) hP hc hj16 he
      exact ⟨by omega, e, iter', w', hrec, .inside hP hc hi' (by omega), hvol, hk, ht⟩
    -- on to the sector at `P + 512`
    obtain rfl : j = 16 := by omega
    have hlt : P % w.vol.bpc < w.vol.bpc := Nat.mod_lt _ hb
    have hm := mod_bpc_mod w.vol P
    have hd : w.vol.bpc = w.vol.sectorsPerCluster.toNat * 512 := rfl
    have hload : w.vol.bytesPerSector.toNat / 32 ≤ 16 := by omega
    have hnext : P / 32 + 16 = (P + 512) / 32 := by omega
    by_cases hin : P % w.vol.bpc + 512 < w.vol.bpc
    · left
      obtain ⟨h1, h2⟩ := add_in_cluster hb hin
      have hs : (iter.currentSectorInCluster + 1).toNat = (P + 512) % w.vol.bpc / 512 := by
        have hle := w.vol.bpc_le
        rw [UInt32.toNat_add, hi.sector, h2]
        show (_ + 1) % 2 ^ 32 = _
        omega
      have ht := dirTurn_sector l info env (Or.inr (by rw [hi.entry]; exact hload)) hi.cluster hs (by rw [h2]; omega)
      rw [ha, if_neg (by decide)] at ht
      rw [hnext]
      exact first (by omega) (by rw [h1]; exact hc) ht
    · have hend := cluster_end hb (p := P) (n := 512) (by omega) (by omega)
      have hl := dirTurn_link l info hv.sectors hi hload (by omega)
      rw [ha, ha] at hl
      rcases hl with ⟨hnv, -⟩ | ⟨-, hf, -⟩ | ⟨-, -, hl⟩
      · exact absurd (hv.valid (hch.inRange hc)) hnv
      · cases hf
      rcases hch.step hc with ⟨d, hd1, he⟩ | ⟨hlast, he⟩
      · left
        rw [he, fatResult_next hv (hch.inRange hd1)] at hl
        rw [if_neg (by simp), if_neg (by decide)] at hl
        have hq : (P + 512) / w.vol.bpc = P / w.vol.bpc + 1 := by rw [hend, Nat.mul_div_cancel _ hb]
        have hz : (P + 512) % w.vol.bpc = 0 := by rw [hend, Nat.mul_mod_left]
        rw [hnext]
        exact first (by omega) (by rw [hq]; exact hd1) (by rw [hz]; exact hl)
      · right
        rw [fatResult_eoc he, if_pos (by simp)] at hl
        refine ⟨?_, hl⟩
        rw [hlast] at hend
        rw [recordCount, ← hend, hnext]

end

/-- How a call ends that starts with `n` records behind it: nothing is left to report, or it
    reports the next one. -/
def CallEnds (env : Env) (v : VolumeInfo) (cs : List UInt32) (n : Nat) (res : FatError) (iter : DirIter)
    (info : FileInfo) : Prop :=
  let rest := (records env v cs).drop n
  (entriesIn rest = [] ∧ res = endOf rest) ∨
  (res = .success ∧ ∃ r n', n < n' ∧ n' ≤ recordCount v cs ∧ entriesIn rest =
      r :: entriesIn ((records env v cs).drop n') ∧
    endOf rest = endOf ((records env v cs).drop n') ∧ Decodes info r ∧ Before env v cs n' iter)

theorem endOf_ne_success (rs : List Buf) : endOf rs ≠ .success := by
  unfold endOf
  split <;> decide

/-- A record that is skipped does not change how the call ends. -/
theorem CallEnds.skip {env : Env} {v : VolumeInfo} {cs : List UInt32} {n : Nat} {res : FatError} {iter : DirIter}
    {info : FileInfo} (hn : n < recordCount v cs) (h0 : record env v cs n 0 ≠ 0) (hr : ¬ Reported (record env v cs n))
    (h : CallEnds env v cs (n + 1) res iter info) : CallEnds env v cs n res iter info := by
  have hskip := entriesIn_skipped h0 hr ((records env v cs).drop (n + 1))
  rw [← records_drop env hn] at hskip
  rcases h with ⟨he, hres⟩ | ⟨hs, r, n', hlt, hle, he, hend, hd, hb⟩
  · exact Or.inl ⟨hskip.1.trans he, hres.trans hskip.2.symm⟩
  · exact Or.inr ⟨hs, r, n', by omega, hle, hskip.1.trans he, hskip.2.trans hend, hd, hb⟩

section
variable {env : Env} {v : VolumeInfo} {cs : List UInt32} (hv : v.WellFormed) (ha : ∀ k, env.fails k = false)
  (hch : Chain env v cs)
include hv ha hch

theorem readDirLoop_before (fuel : Nat) : ∀ {n : Nat} {iter : DirIter} {w : World}, w.vol = v → Before env v cs n iter →
    recordCount v cs < n + fuel → ∀ (l : LfnLocals) (info : FileInfo), ∃ res iter' info' w', w'.vol = v ∧
      CallEnds env v cs n res iter' info' ∧ readDirLoop env fuel iter l info w = .ok ((res, iter', info'), w') := by
  induction fuel with
  | zero =>
    intro n iter w hw hb hlt l info
    subst hw
    rcases dirTurn_before hv ha hch hb l info with ⟨hn, -⟩ | ⟨hn, -⟩ <;> omega
  | succ fuel ih =>
    intro n iter w hw hb hlt l info
    subst hw
    rcases dirTurn_before hv ha hch hb l info with ⟨hn, e, iter', w', he, hb', hvol, -, ht⟩ | ⟨hn, iter', w', hvol, ht⟩
    · simp only [readDirLoop, bind_apply, ht, ok_bind]
      have hdrop := records_drop env hn
      by_cases h0 : record env w.vol cs n 0 = 0
      · -- the end mark
        rw [entryTurn_ends he iter' l info h0]
        obtain ⟨h1, h2⟩ := entriesIn_end h0 ((records env w.vol cs).drop (n + 1))
        rw [← hdrop] at h1 h2
        exact ⟨_, _, _, w', hvol, Or.inl ⟨h1, h2.symm⟩, rfl⟩
      by_cases hr : Reported (record env w.vol cs n)
      · rw [entryTurn_reports he iter' l info hr]
        obtain ⟨h1, h2⟩ := entriesIn_reported hr ((records env w.vol cs).drop (n + 1))
        rw [← hdrop] at h1 h2
        exact ⟨_, _, _, w', hvol, Or.inr ⟨rfl, _, n + 1, by omega, by omega, h1, h2, sfnEntry_decodes he _ l info,
          hb'.checksum 0⟩, rfl⟩
      · obtain ⟨k, l', info', e'⟩ := entryTurn_skips he iter' l info h0 hr
        rw [e']
        obtain ⟨res, iter2, info2, w2, hvol2, hends, e2⟩ := ih hvol (hb'.checksum k) (by omega) l' info'
        exact ⟨res, iter2, info2, w2, hvol2, hends.skip hn h0 hr, e2⟩
    · have hnil := records_end env hn
      refine ⟨.endOfChain, iter', info, w', hvol, Or.inl ?_, ?_⟩
      · rw [hnil]; exact ⟨rfl, rfl⟩
      · simp only [readDirLoop, bind_apply, ht, ok_bind, pure_apply]

theorem fatReadNextDirEntry_before {fuel n : Nat} {iter : DirIter} {w : World} (hw : w.vol = v)
    (hb : Before env v cs n iter) (hf : recordCount v cs < n + fuel) (info : FileInfo) :
    ∃ res iter' info' w', w'.vol = v ∧
      CallEnds env v cs n res iter' info' ∧ fatReadNextDirEntry env fuel iter info w = .ok ((res, iter', info'), w') :=
        by
  have hi : w.vol.isInitialized = true := by rw [hw]; exact hv.initialized
  obtain ⟨res, iter', info', w', hvol, hends, e⟩ :=
    readDirLoop_before hv ha hch fuel (w := { w with frames := w.frames + 1 }) hw hb hf (env.stack w.frames) info
  refine ⟨res, iter', info', w', hvol, hends, ?_⟩
  simp only [fatReadNextDirEntry, bind_apply, get_apply, ok_bind, hi, Bool.not_true, Bool.false_eq_true, if_false,
    modify_apply, e]

end

/-! ## The listing -/

/-- A caller that asks for entries until the answer is no success. -/
def listFrom (env : Env) (fuel : Nat) : Nat → DirIter → FileInfo → FatM (List FileInfo × FatError)
  | 0, _, _ => halt .spin
  | n + 1, iter, info => do
    let (res, iter, info) ← fatReadNextDirEntry env fuel iter info
    if res = .success then
      let (infos, last) ← listFrom env fuel n iter info
      return (info :: infos, last)
    else return ([], res)

/-- The same on a fresh iterator. -/
def listDirectory (env : Env) (fuel n : Nat) (startCluster : UInt32) (iter : DirIter) (info : FileInfo) :
    FatM (List FileInfo × FatError) := do
  let (res, iter) ← fatInitRootDirIterator iter startCluster
  if res ≠ .success then return ([], res) else listFrom env fuel n iter info

theorem listFrom_before {env : Env} {v : VolumeInfo} {cs : List UInt32} (hv : v.WellFormed)
    (ha : ∀ k, env.fails k = false) (hch : Chain env v cs) {fuel : Nat} (hf : recordCount v cs < fuel) (calls : Nat) :
    ∀ {n : Nat} {iter : DirIter} {w : World},
    w.vol = v → Before env v cs n iter → recordCount v cs < n + calls → n ≤ recordCount v cs → ∀ info : FileInfo,
    ∃ infos w', List.Forall₂ Decodes infos (entriesIn ((records env v cs).drop n)) ∧
      listFrom env fuel calls iter info w = .ok ((infos, endOf ((records env v cs).drop n)), w') := by
  induction calls with
  | zero => intro n iter w _ _ _ _; omega
  | succ calls ih =>
    intro n iter w hw hb hlt hle info
    obtain ⟨res, iter', info', w', hvol, hends, e⟩ := @fatReadNextDirEntry_before _ _ _ hv ha hch fuel _ _ _ hw hb (by omega) info
    simp only [listFrom, bind_apply, e, ok_bind]
    rcases hends with ⟨hnil, hres⟩ | ⟨hs, r, n', hn, hle', hcons, hend, hd, hb'⟩
    · have hne : res ≠ .success := by rw [hres]; exact endOf_ne_success _
      rw [if_neg hne]
      refine ⟨[], w', ?_, ?_⟩
      · rw [hnil]; exact .nil
      · rw [hres]; rfl
    · rw [if_pos hs]
      obtain ⟨infos, w2, hall, e2⟩ := ih hvol hb' (by omega) hle' info'
      refine ⟨info' :: infos, w2, ?_, ?_⟩
      · rw [hcons]; exact .cons hd hall
      · rw [bind_apply, e2, hend]; rfl

/-- On a directory with a good chain a fresh iterator reports the records before the end
    mark that are neither deleted nor long-name entries nor volume labels, each once and
    in order, and then says which end it met. -/
theorem directory_listing {env : Env} {w : World} {cs : List UInt32} {c : UInt32} (hv : w.vol.WellFormed)
    (ha : ∀ k, env.fails k = false) (hch : Chain env w.vol cs) (hc : cs[0]? = some c) (iter : DirIter)
    (info : FileInfo) :
    ∃ N, ∀ fuel n, N ≤ fuel → N ≤ n → ∃ infos w', List.Forall₂ Decodes infos (entriesIn (records env w.vol cs)) ∧
      listDirectory env fuel n c iter info w = .ok ((infos, endOf (records env w.vol cs)), w') := by
  refine ⟨recordCount w.vol cs + 1, fun fuel n hf hn => ?_⟩
  have e := fatInitRootDirIterator_apply hv.initialized iter c
  obtain ⟨infos, w', hall, e'⟩ := listFrom_before hv ha hch hf n rfl (.fresh (freshIter_fresh c) hc) (by omega) (Nat.zero_le _) info
  rw [List.drop_zero] at hall e'
  refine ⟨infos, w', hall, ?_⟩
  simp only [listDirectory, bind_apply, e, ok_bind, ne_eq, not_true_eq_false, if_false, e']

/-! ### A directory of two clusters -/

/-- The FAT of the sample card, with cluster 4 behind cluster 2. -/
def spreadFat : List UInt8 :=
  List.replicate 8 0 ++ [4, 0, 0, 0, 5, 0, 0, 0, 0xF8, 0xFF, 0xFF, 0x0F, 0xF8, 0xFF, 0xFF, 0x0F]

/-- The sample card with these bytes at the start of the two clusters of its root directory. -/
def spreadDisk (first second : List UInt8) : Env := { sampleCard with
  block := fun lba i => if lba = 2 then spreadFat.getD i 0 else if lba = 3 then first.getD i 0
    else if lba = 5 then second.getD i 0 else sampleCard.block lba i }

theorem spreadDisk_chain (first second : List UInt8) (f : Nat → Bool) :
    Chain { spreadDisk first second with fails := f } sampleVolume [2, 4] := by
  have h : fatEntry (spreadDisk [] []) sampleVolume 2 = 4 ∧ fatEntry (spreadDisk [] []) sampleVolume 4 = 0x0FFFFFF8 :=
      by
    decide +kernel
  have h4 : fatEntry { spreadDisk first second with fails := f } sampleVolume 4 = 0x0FFFFFF8 := h.2
  exact ⟨⟨by decide, by decide⟩, h.1, ⟨by decide, by decide⟩, by rw [h4]; exact ⟨by decide, by decide⟩⟩

/-- An entry with a name of one character. -/
def plainEntry (name attr cluster size : UInt8) : List UInt8 :=
  name :: List.replicate 10 0x20 ++ attr :: List.replicate 14 0 ++ [cluster, 0, size, 0, 0, 0]

def deletedEntries (n : Nat) : List UInt8 := (List.replicate n (plainEntry 0xE5 0x20 0 0)).flatten

/-- A label, a deleted entry, the directory `D`, an entry of a long name and `A`, and eleven deleted
    ones; in the other cluster a deleted one and `B`. -/
def mixedDisk : Env :=
  spreadDisk (plainEntry 0x56 0x08 0 0 ++ deletedEntries 1 ++ plainEntry 0x44 0x10 6 0 ++ plainEntry 0x41 0x0F 0 0 ++
    plainEntry 0x41 0x20 3 200 ++ deletedEntries 11) (deletedEntries 1 ++ plainEntry 0x42 0x20 7 9)

def summary (i : FileInfo) : UInt32 × UInt32 × Bool := (i.firstCluster, i.fileSize, i.isDirectory)

theorem summary_decodes {infos : List FileInfo} {es : List Buf} (h : List.Forall₂ Decodes infos es) :
    infos.map summary = es.map fun e => (entryCluster e, readLe32 e 28, decide (IsDir e)) := by
  induction h with
  | nil => rfl
  | @cons i e _ _ hd _ ih =>
    have hdir : i.isDirectory = decide (IsDir e) := by rw [Bool.eq_iff_iff, hd.isDirectory, decide_eq_true_iff]
    rw [List.map_cons, List.map_cons, ih, summary, hd.firstCluster, hd.fileSize, hdir]

theorem directory_listing_mixed : ∃ N, ∀ fuel n, N ≤ fuel → N ≤ n → ∃ infos w',
    infos.map summary = [(6, 0, true), (3, 200, false), (7, 9, false)] ∧
    listDirectory mixedDisk fuel n 2 default default (after (fat32Init mixedDisk World.boot)) =
      .ok ((infos, .noMoreEntries), w') := by
  have hvol : (after (fat32Init mixedDisk World.boot)).vol = sampleVolume := by decide +kernel
  have hent : (entriesIn (records mixedDisk sampleVolume [2, 4])).map
      (fun e => (entryCluster e, readLe32 e 28, decide (IsDir e))) =
      [(6, 0, true), (3, 200, false), (7, 9, false)] := by decide +kernel
  have hend : endOf (records mixedDisk sampleVolume [2, 4]) = .noMoreEntries := by decide +kernel
  have hch : Chain mixedDisk sampleVolume [2, 4] := spreadDisk_chain _ _ _
  rw [← hvol] at hch hent hend
  obtain ⟨N, h⟩ := directory_listing (hvol ▸ sampleVolume_wellFormed) (fun _ => rfl) hch rfl default default
  refine ⟨N, fun fuel n hf hn => ?_⟩
  obtain ⟨infos, w', hall, e⟩ := h fuel n hf hn
  rw [hend] at e
  exact ⟨infos, w', (summary_decodes hall).trans hent, e⟩

end OpenGpos.Fat
